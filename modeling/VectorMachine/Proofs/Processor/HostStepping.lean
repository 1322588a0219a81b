import VectorMachine.Proofs.Processor.Interleaving
import VectorMachine.Proofs.Processor.OtherUnit
import VectorMachine.Proofs.VectorUnit.Interference

namespace VectorMachine

namespace Instruction

/-- Whether an instruction leaves alone, and does not look at, what a waiting job works on. -/
def spares (i : Instruction) (p : Processor) (job : Job) : Bool :=
  match i.opcode with
  | .gload =>
      match i.unitCellAt p 1, i.valueAt p 2 with
      | .ok dst, .ok len =>
          decide (∀ k, k < len.toNat → ¬ job.Reads (dst.offset k) ∧ ¬ job.Writes (dst.offset k))
      | _, _ => true
  | .gwrite =>
      match i.unitCellAt p 0 with
      | .ok a => decide (¬ job.Reads a ∧ ¬ job.Writes a)
      | _ => true
  | .gread =>
      match i.unitCellAt p 1 with
      | .ok a => decide (¬ job.Writes a)
      | _ => true
  | .gstore =>
      match i.unitCellAt p 0, i.valueAt p 2 with
      | .ok src, .ok len => decide (∀ k, k < len.toNat → ¬ job.Writes (src.offset k))
      | _, _ => true
  | .gres | .gexec => false
  | _ => true

end Instruction

namespace Processor

def sparesWaiting (p : Processor) : Bool :=
  match p.current?, p.unit.bind fun u => u.work.job? with
  | some i, some job => i.spares p job
  | _, _ => true

def raceFree (p : Processor) : List Pace → Bool
  | [] => true
  | pace :: rest => p.sparesWaiting && (p.advance pace).next.raceFree rest

inductive Move where
  | call (pace : Pace)
  | host
  deriving DecidableEq, Repr

def Move.call? : Move → Option Pace
  | .call pace => some pace
  | .host => none

def calls (moves : List Move) : List Pace := moves.filterMap Move.call?

def move (p : Processor) : Move → Processor
  | .call pace => (p.advance pace).next
  | .host => (p.onUnit fun u => (u.step.unit, u.step.events)).1

def play (p : Processor) (moves : List Move) : Processor := moves.foldl move p

def answers (p : Processor) : List Move → List Progress
  | [] => []
  | .call pace :: rest => (p.advance pace).result :: (p.move (.call pace)).answers rest
  | .host :: rest => (p.move .host).answers rest

section Plan

variable (p : Processor) (v : VectorUnit)

theorem value?_withUnit (o : Option Operand) : (p.withUnit v).value? o = p.value? o := by
  simp only [value?, value_withUnit]

theorem target?_withUnit (o : Option Operand) : (p.withUnit v).target? o = p.target? o := by
  simp only [target?, target_withUnit]

theorem aluOutput?_withUnit (op : AluOp) (a b : Option Operand) :
    (p.withUnit v).aluOutput? op a b = p.aluOutput? op a b := by
  simp only [aluOutput?, value?_withUnit]

end Plan

theorem unitCellAt_of_value? {p : Processor} {i : Instruction} {position : Nat} {w : Word}
    (h : p.value? (i.operand? position) = some w) :
    i.unitCellAt p position = .ok (Cell.ofNat w.toNat) := by
  simp only [Instruction.unitCellAt, valueAt_eq_ok_iff.2 h]
  rfl

theorem plan_withUnit {p : Processor} {u v : VectorUnit} {i : Instruction} (hu : p.unit = some u)
    (hv : i.ViewsAlike p u v) (hw : v.width = u.width) : (p.withUnit v).plan i = p.plan i := by
  simp only [plan, value?_withUnit, target?_withUnit, aluOutput?_withUnit]
  rw [Instruction.ViewsAlike] at hv
  cases ho : i.opcode with
  | gexec =>
      simp only [planLaunch, value?_withUnit, unit_withUnit, hu, Option.map_some, hw]
  | gres =>
      rw [ho] at hv
      have hr : v.result = u.result := hv
      simp only [planResult, unit_withUnit, hu, Option.map_some, hr]
  | gread =>
      rw [ho] at hv
      simp only [planUnitRead, value?_withUnit, unit_withUnit, hu, Option.map_some]
      cases hx : p.value? (i.operand? 1) with
      | none => rfl
      | some w =>
          have hr := hv _ (unitCellAt_of_value? hx)
          simp only [Option.map_some, Option.bind_some, hr]
  | alu op => simp only [planAlu, aluOutput?_withUnit]
  | cmp => simp only [planAlu, aluOutput?_withUnit]
  | load =>
      simp only [planLoad, value?_withUnit]
      rfl
  | store => simp only [planStore, value?_withUnit]
  | jumpIf c => simp only [planJump, target?_withUnit]; rfl
  | call => simp only [planCall, target?_withUnit]; rfl
  | push => simp only [planPush, value?_withUnit]; rfl
  | gload => simp only [planTransfer, value?_withUnit]
  | gstore => simp only [planTransfer, value?_withUnit]
  | gwrite => simp only [planUnitWrite, value?_withUnit]
  | _ => rfl

section Micro

variable {p : Processor} {u v : VectorUnit}

theorem Turn.Matches.advanced {s t : Turn} (h : s.Matches t id u v)
    (ha : t.result.isAdvanced = true) :
    s.Matches t (if t.result.isAdvanced then id else p.unitNext) u v := by
  rw [if_pos ha]
  exact h

theorem Turn.Matches.settled {s t : Turn} (h : s.Matches t p.unitNext u v)
    (ha : t.result.isAdvanced = false) :
    s.Matches t (if t.result.isAdvanced then id else p.unitNext) u v := by
  rw [ha]
  exact h

theorem matches_planStep {i : Instruction} (hu : p.unit = some u) (hv : i.ViewsAlike p u v)
    (hi : p.current? = some i) (pc : Nat) (text : String) (plan : List MicroOp) :
    let t := p.planStep pc text i plan
    ((p.withUnit v).planStep pc text i plan).Matches t
      (if t.result.isAdvanced then id else p.unitNext) u v := by
  have hn := unitNext_of_some hi
  cases plan with
  | nil => exact (hn ▸ matches_commit hu hv pc).settled (isAdvanced_commit _ _ _)
  | cons m rest =>
      cases rest with
      | nil =>
          let shown := (p.replay ⟨pc, text, some i, [], m.stage⟩ m).1
          have hview : i.ViewsAlike shown u v := by
            rw [Instruction.ViewsAlike] at hv ⊢
            exact hv
          have hm := matches_commit (p := shown) hu hview pc
          have hs : shown.unitAfter i = p.unitNext :=
            (unitAfter_of_bare_eq (show shown.bare = p.bare from rfl) i).trans hn.symm
          rw [hs] at hm
          refine Turn.Matches.settled ?_ (isAdvanced_commit shown pc i)
          exact ⟨hm.result, hm.next, hm.unit⟩
      | cons n rest => exact Turn.Matches.advanced ⟨rfl, rfl, hu⟩ rfl

theorem matches_decodeStep (hu : p.unit = some u)
    (hv : ∀ i, p.current? = some i → i.ViewsAlike p u v) (hw : v.width = u.width) {text : String}
    (hc : p.current? = (Instruction.decode text).toOption) (pc : Nat) :
    let t := p.decodeStep pc text
    ((p.withUnit v).decodeStep pc text).Matches t
      (if t.result.isAdvanced then id else p.unitNext) u v := by
  cases hd : Instruction.decode text with
  | error e =>
      have hnone : p.unitNext = id := unitNext_of_none (by rw [hc, hd]; rfl)
      simp only [decodeStep, hd]
      exact Turn.Matches.settled (hnone ▸ matches_fail hu v _) rfl
  | ok i =>
      have hi : p.current? = some i := by rw [hc, hd]; rfl
      simp only [decodeStep, hd]
      refine Turn.Matches.advanced ?_ rfl
      constructor
      · rfl
      · simp only [plan_withUnit hu (hv i hi) hw]
        rfl
      · exact hu

theorem matches_microStep (hfit : p.FlightFits) (hu : p.unit = some u)
    (hv : ∀ i, p.current? = some i → i.ViewsAlike p u v) (hw : v.width = u.width) :
    (p.withUnit v).microStep.Matches p.microStep
      (if p.microStep.result.isAdvanced then id else p.unitNext) u v := by
  simp only [microStep]
  rw [halted_withUnit, flight_withUnit, program_withUnit, pc_withUnit]
  by_cases hh : p.halted = true
  · simp only [if_pos hh, unitNext_of_halted hh]
    exact ⟨rfl, rfl, hu⟩
  · simp only [if_neg hh]
    cases hf : p.flight with
    | none =>
        cases ht : p.program.instruction? p.pc with
        | none =>
            rw [unitNext_of_end ht]
            exact ⟨rfl, rfl, hu⟩
        | some text => exact ⟨rfl, rfl, hu⟩
    | some flight =>
        have hfits := hfit _ hf
        cases flight with
        | undecoded pc text plan stage =>
            exact matches_decodeStep hu hv hw (current?_of_fits hfits) pc
        | decoded pc text i plan stage =>
            have hi := current?_of_decoded hfits
            exact matches_planStep hu (hv i hi) hi pc text plan

theorem matches_advance (hfit : p.FlightFits) (hu : p.unit = some u)
    (hv : ∀ i, p.current? = some i → i.ViewsAlike p u v) (hw : v.width = u.width) (pace : Pace) :
    ((p.withUnit v).advance pace).Matches (p.advance pace)
      (if (p.advance pace).result.isAdvanced then id else p.unitNext) u v := by
  cases pace with
  | whole => exact (matches_step hfit hu hv).settled (isAdvanced_step p)
  | micro => exact matches_microStep hfit hu hv hw

end Micro

end Processor

section Waiting

variable {p : Processor} {u : VectorUnit} {i : Instruction}

theorem viewsAlike_refl (i : Instruction) (p : Processor) (u : VectorUnit) :
    i.ViewsAlike p u u := by
  rw [Instruction.ViewsAlike]
  split <;> intros <;> trivial

theorem viewsAlike_stepped (hrest : u.work.active? = none)
    (hfree : ∀ job, u.work.job? = some job → i.spares p job = true) (k : Nat) :
    i.ViewsAlike p u (u.stepped k) := by
  rcases VectorUnit.idle_or_queued hrest with hw | ⟨job, hw⟩
  · rw [VectorUnit.stepped_of_idle hw]
    exact viewsAlike_refl i p u
  · have hjob : u.work.job? = some job := by rw [hw]; rfl
    have hs := hfree job hjob
    have hread {c : UnitCell} (hc : ¬ job.Writes c) : (u.stepped k).read c = u.read c := by
      refine VectorUnit.read_stepped ?_ k
      intro j hj
      cases hjob.symm.trans hj
      exact hc
    rw [Instruction.ViewsAlike]
    cases ho : i.opcode with
    | gexec => simp [Instruction.spares, ho] at hs
    | gres => simp [Instruction.spares, ho] at hs
    | gread =>
        intro c hc
        simp only [Instruction.spares, ho, hc, decide_eq_true_eq] at hs
        exact hread hs
    | gstore =>
        intro src len hsrc hlen n hn
        simp only [Instruction.spares, ho, hsrc, hlen, decide_eq_true_eq] at hs
        exact hread (hs n hn)
    | _ => trivial

theorem spared_of_load {src : PrimaryCell} {dst : UnitCell} {len : Word} {job : Job}
    (ho : i.opcode = .gload) (hd : i.unitCellAt p 1 = .ok dst) (hl : i.valueAt p 2 = .ok len)
    (h : i.spares p job = true) :
    job.Spared fun memory => VectorUnit.copyIn memory p.memory src dst len.toNat := by
  simp only [Instruction.spares, ho, hd, hl, decide_eq_true_eq] at h
  exact VectorUnit.spared_copyIn (fun k hk => (h k hk).1) (fun k hk => (h k hk).2)

theorem spared_of_poke {a : UnitCell} {job : Job} (ho : i.opcode = .gwrite)
    (ha : i.unitCellAt p 0 = .ok a) (h : i.spares p job = true) (w : Word) :
    job.Spared (VectorUnit.put a w) := by
  simp only [Instruction.spares, ho, ha, decide_eq_true_eq] at h
  exact VectorUnit.spared_put h.1 h.2 w

theorem onUnit_stepped {a : Action} (hb : Processor.Bridges p i a) (hrest : u.work.active? = none)
    (hfree : ∀ job, u.work.job? = some job → i.spares p job = true) (k : Nat) :
    (∃ n, a.onUnit p.memory (u.stepped k) = (a.onUnit p.memory u).stepped n) ∧
      (a.onUnit p.memory u).work.active? = none := by
  cases hb with
  | load ho hd hl =>
      refine ⟨⟨k, (VectorUnit.stepped_amend ?_ _ k).symm⟩, hrest⟩
      intro job hj
      exact spared_of_load ho hd hl (hfree job hj)
  | store ho hs hl =>
      exact ⟨⟨k, (VectorUnit.stepped_amend (fun _ _ => VectorUnit.spared_id) _ k).symm⟩, hrest⟩
  | @poke c w ho ha =>
      have hs (job : Job) (hj : u.work.job? = some job) : job.Spared (VectorUnit.put c w) :=
        spared_of_poke ho ha (hfree job hj) w
      exact ⟨⟨k, (VectorUnit.stepped_amend hs 0 k).symm⟩, hrest⟩
  | drain ho =>
      refine ⟨⟨0, u.unit_drain_stepped k⟩, ?_⟩
      rw [Action.onUnit, VectorUnit.work_drain]
      rfl
  | @launch job ho =>
      rcases VectorUnit.idle_or_queued hrest with hw | ⟨waiting, hw⟩
      · rw [VectorUnit.stepped_of_idle hw]
        refine ⟨⟨0, rfl⟩, ?_⟩
        simp only [Action.onUnit, Processor.launched, VectorUnit.start_of_idle hw]
        rfl
      · have hs := hfree waiting (by rw [hw]; rfl)
        simp [Instruction.spares, ho] at hs
  | inside ha =>
      refine ⟨⟨k, ?_⟩, ?_⟩
      · rw [Action.onUnit_of_not_reachesUnit ha, Action.onUnit_of_not_reachesUnit ha]
      · rw [Action.onUnit_of_not_reachesUnit ha]
        exact hrest

end Waiting

namespace Processor

/-- The second processor is the first, with a unit that made some steps before its time. -/
structure Ahead (p q : Processor) : Prop where
  fits : p.FlightFits
  unit : ∃ u k, p.unit = some u ∧ u.work.active? = none ∧ q = p.withUnit (u.stepped k)

theorem Ahead.host {p q : Processor} (h : Ahead p q) : Ahead p (q.move .host) := by
  obtain ⟨u, k, hu, hrest, rfl⟩ := h.unit
  exact ⟨h.fits, u, k + 1, hu, hrest, rfl⟩

theorem spares_of_sparesWaiting {p : Processor} (h : p.sparesWaiting = true) {u : VectorUnit}
    (hu : p.unit = some u) {i : Instruction} (hi : p.current? = some i) {job : Job}
    (hj : u.work.job? = some job) : i.spares p job = true := by
  simpa [sparesWaiting, hi, hu, hj] using h

theorem unitNext_stepped {p : Processor} {u : VectorUnit} (hu : p.unit = some u)
    (hrest : u.work.active? = none) (hfree : p.sparesWaiting = true) (k : Nat) :
    (∃ n, p.unitNext (u.stepped k) = (p.unitNext u).stepped n) ∧
      (p.unitNext u).work.active? = none := by
  rcases p.unitNext_cases with hn | ⟨i, a, hi, ha, hn⟩
  · rw [hn]
    exact ⟨⟨k, rfl⟩, hrest⟩
  · rw [hn]
    refine onUnit_stepped (resolved_of_resolve ha).bridges hrest ?_ k
    intro job hj
    exact spares_of_sparesWaiting hfree hu hi hj

theorem Ahead.call {p q : Processor} (h : Ahead p q) (hfree : p.sparesWaiting = true)
    (pace : Pace) :
    (q.advance pace).result = (p.advance pace).result ∧
      Ahead (p.advance pace).next (q.advance pace).next := by
  obtain ⟨u, k, hu, hrest, rfl⟩ := h.unit
  have hview (i : Instruction) (hi : p.current? = some i) : i.ViewsAlike p u (u.stepped k) := by
    refine viewsAlike_stepped hrest ?_ k
    intro job hj
    exact spares_of_sparesWaiting hfree hu hi hj
  have hm := matches_advance h.fits hu hview (u.width_stepped k) pace
  have hfits := flightFits_advance h.fits pace
  refine ⟨hm.result, hfits, ?_⟩
  -- a replay leaves both units alone, any other call ends in a commit on both
  by_cases ha : (p.advance pace).result.isAdvanced = true
  · rw [if_pos ha] at hm
    exact ⟨u, k, hm.unit, hrest, hm.next⟩
  · rw [if_neg ha] at hm
    obtain ⟨⟨n, hn⟩, hrest'⟩ := unitNext_stepped hu hrest hfree k
    refine ⟨p.unitNext u, n, hm.unit, hrest', ?_⟩
    rw [← hn]
    exact hm.next

theorem Ahead.play {p q : Processor} (h : Ahead p q) {moves : List Move}
    (hfree : p.raceFree (calls moves) = true) :
    q.answers moves = p.results (calls moves) ∧ Ahead (p.after (calls moves)) (q.play moves) := by
  induction moves generalizing p q with
  | nil => exact ⟨rfl, h⟩
  | cons m moves ih =>
      cases m with
      | host => exact ih h.host hfree
      | call pace =>
          have hf : (p.sparesWaiting && (p.advance pace).next.raceFree (calls moves)) = true :=
            hfree
          obtain ⟨hnow, hlater⟩ := Bool.and_eq_true_iff.1 hf
          obtain ⟨hresult, hnext⟩ := h.call hnow pace
          obtain ⟨hanswers, hahead⟩ := ih hnext hlater
          refine ⟨?_, hahead⟩
          simp only [answers]
          rw [hresult]
          exact congrArg _ hanswers

theorem Ahead.eq_of_idle {p q : Processor} (h : Ahead p q)
    (hidle : ∀ u, p.unit = some u → u.work = .idle) : q = p := by
  obtain ⟨u, k, hu, -, rfl⟩ := h.unit
  rw [VectorUnit.stepped_of_idle (hidle u hu), withUnit_self hu]

theorem idle_of_wait {p : Processor} {u : VectorUnit} (hfit : p.FlightFits)
    (hu : p.unit = some u) {i : Instruction} (hi : p.current? = some i) (ho : i.opcode = .gwait)
    {pace : Pace} (hc : (p.advance pace).result = .committed) :
    ∀ v, (p.advance pace).next.unit = some v → v.work = .idle := by
  intro v hv
  have hm := matches_advance hfit hu (fun j _ => viewsAlike_refl j p u) rfl pace
  have hr : p.resolve i = .ok .drain := by
    simp only [resolve, ho, attached_of_unit hu]
    rfl
  have hn : p.unitNext u = u.drain.unit := by
    simp only [unitNext, hi, unitAfter, hr]
    rfl
  have hunit := hm.unit
  rw [hc] at hunit
  have hv' : some v = some u.drain.unit := hv.symm.trans (hunit.trans (congrArg some hn))
  rw [Option.some.inj hv']
  exact VectorUnit.work_drain u

theorem calls_append (first rest : List Move) : calls (first ++ rest) = calls first ++ calls rest :=
  List.filterMap_append

theorem after_append (p : Processor) (first rest : List Pace) :
    p.after (first ++ rest) = (p.after first).after rest :=
  List.foldl_append

theorem raceFree_of_append {p : Processor} {first rest : List Pace}
    (h : p.raceFree (first ++ rest) = true) : p.raceFree first = true := by
  induction first generalizing p with
  | nil => rfl
  | cons pace first ih =>
      simp only [List.cons_append, raceFree, Bool.and_eq_true] at h ⊢
      exact ⟨h.1, ih h.2⟩

theorem host_steps_are_invisible (p : Processor) (u : VectorUnit) (hflight : p.flight = none)
    (hunit : p.unit = some u) (hrest : u.work.active? = none) (moves : List Move)
    (hfree : p.raceFree (calls moves) = true) :
    p.answers moves = p.results (calls moves) ∧
    (∀ before rest, moves = before ++ rest →
      ∃ v, p.play before = (p.after (calls before)).withUnit v) ∧
    (∀ before pace rest i, moves = before ++ .call pace :: rest →
      (p.after (calls before)).current? = some i → i.opcode = .gwait →
      ((p.after (calls before)).advance pace).result = .committed →
      p.play (before ++ [.call pace]) = p.after (calls (before ++ [.call pace]))) := by
  have hstart : Ahead p p := by
    refine ⟨flightFits_of_none hflight, u, 0, hunit, hrest, ?_⟩
    exact (withUnit_self hunit).symm
  have hahead {before rest : List Move} (hm : moves = before ++ rest) :
      Ahead (p.after (calls before)) (p.play before) := by
    rw [hm, calls_append] at hfree
    exact (hstart.play (raceFree_of_append hfree)).2
  refine ⟨(hstart.play hfree).1, ?_, ?_⟩
  · intro before rest hm
    obtain ⟨v, k, -, -, hq⟩ := (hahead hm).unit
    exact ⟨v.stepped k, hq⟩
  · intro before pace rest i hm hi ho hc
    have hwait : moves = (before ++ [.call pace]) ++ rest := by
      rw [hm, List.append_assoc, List.singleton_append]
    refine (hahead hwait).eq_of_idle ?_
    obtain ⟨v, k, hv, -⟩ := (hahead hm).unit
    have hidle := idle_of_wait (hahead hm).fits hv hi ho hc
    rw [calls_append, after_append]
    exact hidle

def waiting : Processor :=
  let program := ["GWRITE 1, 9", "GEXEC ADD, 0, 16, 9", "MOV R0, 5", "GWRITE 40, R0",
    "GREAD R1, 1", "GWAIT"]
  { new {} with program := .ofInstructions program }.after (wholeSteps 2)

def meddling : List Move :=
  [.host, .host, .call .whole, .host, .call .micro, .host, .call .whole, .host, .call .whole,
    .host, .call .micro, .call .micro, .host, .call .micro, .call .micro]

theorem host_steps_are_invisible_meddling :
    ∃ u, waiting.flight = none ∧ waiting.unit = some u ∧ u.work.active? = none ∧
      waiting.raceFree (calls meddling) = true ∧
      waiting.play meddling = waiting.after (calls meddling) ∧
      (waiting.play meddling).registers.read 1 = 9 := by
  have hu : ∃ u, waiting.unit = some u := Option.isSome_iff_exists.1 (by decide +kernel)
  obtain ⟨u, hu⟩ := hu
  have hrest : u.work.active? = none := by
    have h : (waiting.unit.bind fun u => u.work.active?) = none := by decide +kernel
    rwa [hu] at h
  have hfree : waiting.raceFree (calls meddling) = true := by decide +kernel
  obtain ⟨-, -, hwait⟩ := host_steps_are_invisible waiting u rfl hu hrest meddling hfree
  have hlast := hwait meddling.dropLast .micro [] ⟨.gwait, []⟩ (by decide) (by decide +kernel) rfl
    (by decide +kernel)
  refine ⟨u, rfl, hu, hrest, hfree, hlast, ?_⟩
  decide +kernel

end Processor

end VectorMachine
