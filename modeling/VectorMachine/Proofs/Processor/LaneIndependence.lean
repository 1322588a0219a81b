import VectorMachine.Proofs.Processor.Interleaving
import VectorMachine.Proofs.Processor.OtherUnit
import VectorMachine.Proofs.VectorUnit.Laneless

namespace VectorMachine

namespace VectorUnit

/-- Units between jobs with so many lanes each, alike but for lanes, phases and batches. -/
structure Alike (m n : Nat) (u v : VectorUnit) : Prop where
  rest : u.work.active? = none
  safe : ∀ job, u.work.job? = some job → job.Safe
  left : u.lanes = List.replicate m .idle
  right : v.lanes = List.replicate n .idle
  same : v.laneless = u.laneless

variable {m n : Nat} {u v : VectorUnit}

theorem Alike.memory_eq (h : Alike m n u v) : v.memory = u.memory :=
  congrArg (fun w => w.memory) h.same

theorem Alike.result_eq (h : Alike m n u v) : v.result = u.result :=
  congrArg (fun w => w.result) h.same

theorem Alike.work_eq (h : Alike m n u v) : v.work = u.work :=
  congrArg (fun w => w.work) h.same

theorem Alike.read_eq (h : Alike m n u v) (c : UnitCell) : v.read c = u.read c := by
  rw [VectorUnit.read, h.memory_eq]
  rfl

theorem Alike.listeners_eq (h : Alike m n u v) : v.listeners = u.listeners :=
  congrArg (fun w => w.listeners) h.same

theorem Alike.counters_eq (h : Alike m n u v) : v.counters =
    { u.counters with phases := v.counters.phases, batches := v.counters.batches } := by
  have ho : v.counters.operations = u.counters.operations :=
    congrArg (fun w => w.counters.operations) h.same
  have hw : v.counters.wordsTransferred = u.counters.wordsTransferred :=
    congrArg (fun w => w.counters.wordsTransferred) h.same
  simp only [← ho, ← hw]

def withLanes (u : VectorUnit) (lanes : Nat) : VectorUnit :=
  { u with lanes := (new lanes).lanes, hasLane := (new lanes).hasLane }

theorem Alike.eq_right (h : Alike m (max n 1) u v) : v = { u.withLanes n with
    counters := { u.counters with phases := v.counters.phases, batches := v.counters.batches } } :=
  VectorUnit.ext h.memory_eq h.right h.work_eq h.result_eq h.listeners_eq h.counters_eq

theorem Alike.amend (h : Alike m n u v) (g : Vector Word 128 → Vector Word 128) (words : Nat) :
    Alike m n (u.amend g words) (v.amend g words) :=
  ⟨h.rest, h.safe, h.left, h.right, congrArg (VectorUnit.amend g words) h.same⟩

theorem launched_eq (u : VectorUnit) (job : Job) : Processor.launched u job =
    if u.work = .idle then { u with work := .queued job } else u := by
  simp only [Processor.launched, start_eq]
  cases u.work <;> rfl

theorem Alike.launched (h : Alike m n u v) {job : Job} (hs : job.Safe) :
    Alike m n (Processor.launched u job) (Processor.launched v job) := by
  rw [launched_eq, launched_eq, h.work_eq]
  split
  · refine ⟨rfl, ?_, h.left, h.right, ?_⟩
    · intro j hj
      cases hj
      exact hs
    · exact congrArg (fun w => { w with work := .queued job }) h.same
  · exact h

theorem Alike.drain (h : Alike m n u v) : Alike m n u.drain.unit v.drain.unit := by
  have hu : u.width = m := by rw [width, h.left, List.length_replicate]
  have hv : v.width = n := by rw [width, h.right, List.length_replicate]
  rcases idle_or_queued h.rest with hw | ⟨job, hw⟩
  · rw [unit_drain_of_idle hw, unit_drain_of_idle (h.work_eq.trans hw)]
    exact h
  · have hs := h.safe job (by rw [hw]; rfl)
    have hw' := h.work_eq.trans hw
    constructor
    · rw [work_drain]
      rfl
    · intro j hj
      rw [work_drain] at hj
      cases hj
    · rw [lanes_drain_of_queued hw, hu]
    · rw [lanes_drain_of_queued hw', hv]
    · rw [laneless_drain_of_queued hw hs, laneless_drain_of_queued hw' hs, h.same]

theorem Alike.onUnit (h : Alike m n u v) {a : Action}
    (ha : ∀ job, a = .launch job → job.Safe) (primary : Vector Word 256) :
    Alike m n (a.onUnit primary u) (a.onUnit primary v) := by
  cases a with
  | transferIn src dst len => exact h.amend _ len
  | transferOut src dst len => exact h.amend id len
  | launch job => exact h.launched (ha job rfl)
  | drain => exact h.drain
  | poke c w => exact h.amend (put c w) 0
  | _ => exact h

theorem Alike.views (h : Alike m n u v) (i : Instruction) (p : Processor) :
    i.ViewsAlike p u v := by
  rw [Instruction.ViewsAlike]
  split
  · rw [h.work_eq]
  · exact h.result_eq
  · intro c _
    exact h.read_eq c
  · intro src len _ _ k _
    exact h.read_eq _
  · trivial

end VectorUnit

namespace Processor

def launching? (p : Processor) : Option Job :=
  p.current?.bind fun i =>
    match p.resolve i with
    | .ok (.launch job) => some job
    | _ => none

structure Twins (m n : Nat) (p q : Processor) : Prop where
  fits : p.FlightFits
  unit : ∃ u v, p.unit = some u ∧ q = p.withUnit v ∧ u.Alike m n v

theorem alike_unitNext {m n : Nat} {p : Processor} {u v : VectorUnit} (h : u.Alike m n v)
    (hsafe : ∀ job, p.launching? = some job → job.Safe) :
    (p.unitNext u).Alike m n (p.unitNext v) := by
  rcases p.unitNext_cases with hu | ⟨i, a, hi, ha, hu⟩
  · rw [hu]
    exact h
  · rw [hu]
    refine h.onUnit ?_ p.memory
    intro job hj
    refine hsafe job ?_
    simp only [launching?, hi, Option.bind_some, ha, hj]

theorem Twins.step {m n : Nat} {p q : Processor} (h : Twins m n p q)
    (hsafe : ∀ job, p.launching? = some job → job.Safe) :
    q.step.result = p.step.result ∧ Twins m n p.step.next q.step.next := by
  obtain ⟨u, v, hu, rfl, hlike⟩ := h.unit
  have hmatch := matches_step h.fits hu fun i _ => hlike.views i p
  refine ⟨hmatch.result, flightFits_step h.fits, ?_⟩
  exact ⟨_, _, hmatch.unit, hmatch.next, alike_unitNext hlike hsafe⟩

theorem Twins.run {m n : Nat} {p q : Processor} (h : Twins m n p q) {k : Nat}
    (hsafe : ∀ j < k, ∀ job, (p.after (wholeSteps j)).launching? = some job → job.Safe) :
    q.results (wholeSteps k) = p.results (wholeSteps k) ∧
      Twins m n (p.after (wholeSteps k)) (q.after (wholeSteps k)) := by
  -- on the first step, so that the condition on launches moves along with both processors
  induction k generalizing p q with
  | zero => exact ⟨rfl, h⟩
  | succ k ih =>
      obtain ⟨hresult, hnext⟩ := h.step (hsafe 0 k.succ_pos)
      obtain ⟨hresults, htwins⟩ := ih hnext fun j hj => hsafe (j + 1) (Nat.succ_lt_succ hj)
      refine ⟨?_, htwins⟩
      calc q.results (wholeSteps (k + 1))
          = q.step.result :: q.step.next.results (wholeSteps k) := rfl
        _ = p.step.result :: p.step.next.results (wholeSteps k) := by rw [hresult, hresults]

def equip (p : Processor) (u : VectorUnit) (lanes : Nat) : Processor :=
  p.withUnit (u.withLanes lanes)

theorem lane_count_is_unobservable (p : Processor) (u : VectorUnit) (m n k : Nat)
    (hflight : p.flight = none) (hidle : u.work = .idle)
    (hsafe : ∀ j < k, ∀ job, ((p.equip u m).after (wholeSteps j)).launching? = some job →
      job.op.reduction = false → job.HazardFree) :
    (p.equip u n).results (wholeSteps k) = (p.equip u m).results (wholeSteps k) ∧
    ∃ a b, ((p.equip u m).after (wholeSteps k)).unit = some a ∧
      (p.equip u n).after (wholeSteps k) = ((p.equip u m).after (wholeSteps k)).withUnit b ∧
      a.lanes = List.replicate (max m 1) .idle ∧
      b = { a.withLanes n with
        counters :=
          { a.counters with phases := b.counters.phases, batches := b.counters.batches } } := by
  have hstart : Twins (max m 1) (max n 1) (p.equip u m) (p.equip u n) := by
    have hrest : (u.withLanes m).work = .idle := hidle
    refine ⟨flightFits_of_none hflight, _, _, rfl, rfl, ?_⟩
    constructor
    · rw [hrest]
      rfl
    · intro job hj
      rw [hrest] at hj
      cases hj
    · rfl
    · rfl
    · rfl
  obtain ⟨hresults, htwins⟩ := hstart.run hsafe
  obtain ⟨a, b, ha, hb, hlike⟩ := htwins.unit
  exact ⟨hresults, a, b, ha, hb, hlike.left, hlike.eq_right⟩

def busy : Processor :=
  { new {} with program := .ofInstructions ["GWRITE 3, 5", "GEXEC SUM, 0, 0, 200", "GWAIT",
      "GRES R0", "GEXEC COPY, 0, 64, 64", "GWAIT", "GREAD R1, 67", "GEXEC ADD, 0, 1, 1",
      "GEXEC MAX, 0, 0, 4"] }

theorem lane_count_is_unobservable_busy :
    busy.flight = none ∧ (VectorUnit.new 4).work = .idle ∧
      (∀ j < 9, ∀ job,
        ((busy.equip (VectorUnit.new 4) 1).after (wholeSteps j)).launching? = some job →
          job.op.reduction = false → job.HazardFree) ∧
      (busy.equip (VectorUnit.new 4) 3).results (wholeSteps 9) =
        List.replicate 8 .committed ++ [.faulted (.refused (.busy .add))] := by
  have hsafe : ∀ j < 9, ∀ job,
      ((busy.equip (VectorUnit.new 4) 1).after (wholeSteps j)).launching? = some job →
        job.op.reduction = false → job.HazardFree := by
    have h : ∀ j < 9, ∀ job ∈
        ((busy.equip (VectorUnit.new 4) 1).after (wholeSteps j)).launching?,
        job.op.reduction = false → job.HazardFree := by decide +kernel
    exact h
  have h := lane_count_is_unobservable busy (VectorUnit.new 4) 1 3 9 rfl rfl hsafe
  refine ⟨rfl, rfl, hsafe, h.1.trans ?_⟩
  decide +kernel

end Processor

end VectorMachine
