import VectorMachine.Proofs.Processor.Frame
import VectorMachine.Proofs.VectorUnit.Laneless

namespace VectorMachine

inductive Milestone where
  | launch (job : Job)
  | wait (memory : Vector Word 128)
  deriving DecidableEq, Repr

namespace Milestone

def awaited : List Milestone → Option Job
  | .launch job :: _ => some job
  | _ => none

def reduced : List Milestone → Word
  | [] => 0
  | .launch _ :: older => reduced older
  | .wait memory :: older =>
      match awaited older with
      | none => reduced older
      | some job => if job.op.reduction then job.folded memory job.len else reduced older

end Milestone

namespace Instruction

def jobAt (i : Instruction) (p : Processor) : Except Fault Job := do
  let op ← i.vectorOpAt 0
  let src ← i.unitCellAt p 1
  let dst ← i.unitCellAt p 2
  let len ← i.valueAt p 3
  let scalar ← i.valueAt? p 4
  return ⟨op, src, dst, len.toNat, scalar⟩

def milestone? (i : Instruction) (p : Processor) : Option Milestone :=
  match i.opcode with
  | .gexec => (i.jobAt p).toOption.map .launch
  | .gwait => p.unit.map fun u => .wait u.memory
  | _ => none

end Instruction

namespace Processor

def milestonesOf (p : Processor) (pace : Pace) : List Milestone :=
  if (p.advance pace).result = .committed then
    (p.current?.bind fun i => i.milestone? p).toList
  else []

def milestones (p : Processor) : List Pace → List Milestone
  | [] => []
  | pace :: rest => (p.advance pace).next.milestones rest ++ p.milestonesOf pace

end Processor

namespace VectorUnit

open Milestone

/-- The unit is as a program's milestones say; no phase of a job was run but by a wait. -/
structure Records (u : VectorUnit) (log : List Milestone) : Prop where
  lanes : u.lanesIdle
  work : u.work = (awaited log).elim .idle .queued
  result : u.result = reduced log

section Records

variable {u v : VectorUnit} {log : List Milestone}

theorem records_new (lanes : Nat) (ls : Listeners) :
    { new lanes with listeners := ls }.Records [] := by
  have hwidth : width { new lanes with listeners := ls } = max lanes 1 := width_new lanes
  refine ⟨?_, rfl, rfl⟩
  rw [lanesIdle, hwidth]
  rfl

theorem Records.congr (h : u.Records log) (hl : v.lanes = u.lanes) (hw : v.work = u.work)
    (hr : v.result = u.result) : v.Records log := by
  have hwidth : v.width = u.width := congrArg List.length hl
  refine ⟨?_, hw.trans h.work, hr.trans h.result⟩
  rw [lanesIdle, hl, hwidth]
  exact h.lanes

theorem Records.launch (h : u.Records log) (job : Job) :
    { u with work := .queued job }.Records (.launch job :: log) :=
  ⟨h.lanes, rfl, h.result⟩

theorem Records.wait (h : u.Records log) : u.drain.unit.Records (.wait u.memory :: log) := by
  have hwork := h.work
  refine ⟨?_, u.work_drain, ?_⟩
  · rw [lanesIdle, width_drain]
    cases hw : awaited log with
    | none =>
        rw [hw] at hwork
        rw [unit_drain_of_idle hwork]
        exact h.lanes
    | some job =>
        rw [hw] at hwork
        exact lanes_drain_of_queued hwork
  · rw [reduced]
    cases hw : awaited log with
    | none =>
        rw [hw] at hwork
        rw [unit_drain_of_idle hwork]
        exact h.result
    | some job =>
        rw [hw] at hwork
        rw [result_drain_of_queued hwork, performed, h.result]

end Records

end VectorUnit

namespace Processor

open Milestone

section Launch

variable {p : Processor} {i : Instruction} {u : VectorUnit} {job : Job}

theorem resolveLaunch_eq (p : Processor) (u : VectorUnit) (i : Instruction) :
    p.resolveLaunch u i = i.jobAt p >>= launch u := by
  simp only [resolveLaunch, Instruction.jobAt, bind_assoc, pure_bind]

theorem resolve_gexec (ho : i.opcode = .gexec) (hu : p.unit = some u) :
    p.resolve i = i.jobAt p >>= launch u := by
  rw [← resolveLaunch_eq]
  simp only [resolve, ho, attached_of_unit hu]
  rfl

theorem resolve_launch_of_idle (ho : i.opcode = .gexec) (hu : p.unit = some u)
    (hj : i.jobAt p = .ok job) (hw : u.work = .idle) : p.resolve i = .ok (.launch job) := by
  rw [resolve_gexec ho hu, hj]
  change launch u job = _
  rw [launch, VectorUnit.start_of_idle hw]

theorem resolve_launch_of_queued {earlier : Job} (ho : i.opcode = .gexec) (hu : p.unit = some u)
    (hj : i.jobAt p = .ok job) (hw : u.work = .queued earlier) :
    p.resolve i = .error (.refused (.busy earlier.op)) := by
  rw [resolve_gexec ho hu, hj]
  change launch u job = _
  rw [launch, VectorUnit.start_eq, hw]
  rfl

theorem exists_job_of_resolve {a : Action} (ho : i.opcode = .gexec) (hu : p.unit = some u)
    (h : p.resolve i = .ok a) :
    ∃ job, i.jobAt p = .ok job ∧ u.work = .idle ∧ a = .launch job := by
  rw [resolve_gexec ho hu] at h
  obtain ⟨job, hj, h⟩ := exists_of_bind_eq_ok h
  refine ⟨job, hj, ?_⟩
  rw [launch] at h
  cases hs : u.start job with
  | error r =>
      rw [hs] at h
      cases h
  | ok busy =>
      rw [hs] at h
      cases h
      exact ⟨(VectorUnit.start_eq_ok_iff.1 hs).1, rfl⟩

end Launch

def sinceReset (p : Processor) (paces : List Pace) : Processor := p.reset.1.after paces

def history (p : Processor) (paces : List Pace) : List Milestone := p.reset.1.milestones paces

structure Tracks (p : Processor) (log : List Milestone) : Prop where
  fits : p.FlightFits
  unit : ∃ u, p.unit = some u ∧ u.Records log

section Tracks

variable {p : Processor} {i : Instruction} {a : Action} {u : VectorUnit} {pace : Pace}
  {log : List Milestone}

theorem milestonesOf_of_commits (h : Commits p pace i a)
    (hc : (p.advance pace).result = .committed) :
    p.milestonesOf pace = (i.milestone? p).toList := by
  rw [milestonesOf, if_pos hc, h.current, Option.bind_some]

theorem records_of_resolve (hu : p.unit = some u) (hlog : u.Records log)
    (ha : p.resolve i = .ok a) :
    (a.onUnit p.memory u).Records ((i.milestone? p).toList ++ log) := by
  have hsame (v : VectorUnit) (hl : v.lanes = u.lanes) (hw : v.work = u.work)
      (hr : v.result = u.result) : v.Records log := hlog.congr hl hw hr
  rw [Instruction.milestone?]
  cases resolved_of_resolve ha with
  | gexec ho =>
      obtain ⟨job, hj, hw, hjob⟩ := exists_job_of_resolve ho hu ha
      rw [ho, hjob, Action.onUnit, launched, VectorUnit.start_of_idle hw]
      simp only [hj]
      exact hlog.launch job
  | gwait ho =>
      rw [ho, hu]
      exact hlog.wait
  | nop ho | hlt ho | mov ho | load ho | store ho | alu ho | cmp ho | jmp ho | taken ho
  | notTaken ho | call ho | ret ho | push ho | pop ho | gload ho | gstore ho | gres ho | gread ho
  | gwrite ho =>
      rw [ho]
      exact hsame _ rfl rfl rfl

theorem Tracks.advance (h : Tracks p log) (pace : Pace) :
    Tracks (p.advance pace).next (p.milestonesOf pace ++ log) := by
  obtain ⟨u, hu, hlog⟩ := h.unit
  refine ⟨flightFits_advance h.fits pace, ?_⟩
  by_cases hc : (p.advance pace).result = .committed
  · obtain ⟨i, a, hcommits⟩ := commits_of_committed h.fits hc
    rw [milestonesOf_of_commits hcommits hc]
    have hunit := unit_of_commits hcommits
    rw [hu, Option.map_some] at hunit
    exact ⟨_, hunit, records_of_resolve hu hlog hcommits.resolve⟩
  -- Without a commit the unit is the same and nothing is added to the log.
  · have hrests : Rests p (p.advance pace).next := rests_of_not_committed h.fits hc
    have hunit : (p.advance pace).next.unit = p.unit := congrArg (fun q => q.unit) hrests
    rw [milestonesOf, if_neg hc]
    exact ⟨u, hunit.trans hu, hlog⟩

theorem Tracks.after (h : Tracks p log) (paces : List Pace) :
    Tracks (p.after paces) (p.milestones paces ++ log) := by
  induction paces generalizing p log with
  | nil => exact h
  | cons pace rest ih =>
      rw [milestones, List.append_assoc]
      exact ih (h.advance pace)

theorem tracks_reset (hu : p.unit = some u) : Tracks p.reset.1 [] := by
  have hrecords := VectorUnit.records_new u.width u.listeners
  rw [← u.reset_eq] at hrecords
  refine ⟨flightFits_of_none rfl, _, ?_, hrecords⟩
  simp only [reset, hu]
  rfl

theorem tracks_sinceReset (hu : p.unit = some u) (paces : List Pace) :
    Tracks (p.sinceReset paces) (p.history paces) := by
  have h := (tracks_reset hu).after paces
  rw [List.append_nil] at h
  exact h

theorem Tracks.launch (h : Tracks p log) (hi : p.current? = some i) (ho : i.opcode = .gexec)
    {job : Job} (hj : i.jobAt p = .ok job) (ha : (p.advance pace).result.isAdvanced = false) :
    (∀ op, (p.advance pace).result = .faulted (.refused (.busy op)) ↔
      ∃ earlier, awaited log = some earlier ∧ earlier.op = op) ∧
    (awaited log = none → (p.advance pace).result = .committed) := by
  obtain ⟨u, hu, hlog⟩ := h.unit
  have hwork := hlog.work
  rw [result_of_not_advanced h.fits hi ha]
  cases hw : awaited log with
  | none =>
      rw [hw] at hwork
      have hr := resolve_launch_of_idle ho hu hj hwork
      have hrunning := (exists_text_of_current hi).1
      refine ⟨fun op => ?_, fun _ => result_commit_eq_committed hrunning hr rfl⟩
      rw [result_commit_eq_faulted_iff, hr]
      simp
  | some earlier =>
      rw [hw] at hwork
      have hr := resolve_launch_of_queued ho hu hj hwork
      refine ⟨fun op => ?_, fun hnone => by cases hnone⟩
      rw [result_commit_eq_faulted_iff, hr]
      simp

theorem Tracks.wait (h : Tracks p log) (hi : p.current? = some i) (ho : i.opcode = .gwait)
    (hc : (p.advance pace).result = .committed) :
    ∃ v, (p.advance pace).next.unit = some v ∧ v.work = .idle ∧ v.lanesIdle := by
  obtain ⟨u, hu, hlog⟩ := h.unit
  obtain ⟨j, a, hcommits⟩ := commits_of_committed h.fits hc
  obtain rfl := Option.some.inj (hi.symm.trans hcommits.current)
  obtain ⟨v, hv, hrecords⟩ := (h.advance pace).unit
  have hlog' : p.milestonesOf pace = [.wait u.memory] := by
    rw [milestonesOf_of_commits hcommits hc, Instruction.milestone?, ho, hu]
    rfl
  rw [hlog'] at hrecords
  exact ⟨v, hv, hrecords.work, hrecords.lanes⟩

theorem Tracks.readResult (h : Tracks p log) (hi : p.current? = some i) (ho : i.opcode = .gres)
    (hc : (p.advance pace).result = .committed) : ∃ r, i.operand? 0 = some (.register r) ∧
      (p.advance pace).next.registers.read r = reduced log := by
  obtain ⟨u, hu, hlog⟩ := h.unit
  obtain ⟨j, a, hcommits⟩ := commits_of_committed h.fits hc
  obtain rfl := Option.some.inj (hi.symm.trans hcommits.current)
  have hnext : (p.advance pace).next.registers = (p.afterAction i a).registers :=
    congrArg (fun q => q.registers) hcommits.next
  have hresolve := hcommits.resolve
  simp only [resolve, ho] at hresolve
  obtain ⟨v, hv, hresolve⟩ := exists_of_bind_eq_ok hresolve
  obtain rfl : u = v := Option.some.inj (hu.symm.trans (unit_of_attached hv))
  obtain ⟨r, hr, hresolve⟩ := exists_of_bind_eq_ok hresolve
  cases hresolve
  refine ⟨r, operand?_of_registerAt hr, ?_⟩
  rw [hnext, ← hlog.result]
  exact Registers.read_write_self p.registers r u.result

end Tracks

theorem bridge_protocol (p : Processor) (u : VectorUnit) (hu : p.unit = some u)
    (paces : List Pace) (pace : Pace) (i : Instruction)
    (hi : (p.sinceReset paces).current? = some i) :
    (i.opcode = .gexec → ∀ job, i.jobAt (p.sinceReset paces) = .ok job →
      ((p.sinceReset paces).advance pace).result.isAdvanced = false →
      (∀ op, ((p.sinceReset paces).advance pace).result = .faulted (.refused (.busy op)) ↔
        ∃ earlier, awaited (p.history paces) = some earlier ∧ earlier.op = op) ∧
      (awaited (p.history paces) = none →
        ((p.sinceReset paces).advance pace).result = .committed)) ∧
    (i.opcode = .gwait → ((p.sinceReset paces).advance pace).result = .committed →
      ∃ v, ((p.sinceReset paces).advance pace).next.unit = some v ∧ v.work = .idle ∧
        v.lanesIdle) ∧
    (i.opcode = .gres → ((p.sinceReset paces).advance pace).result = .committed →
      ∃ r, i.operand? 0 = some (.register r) ∧
        ((p.sinceReset paces).advance pace).next.registers.read r =
          reduced (p.history paces)) := by
  have h := tracks_sinceReset hu paces
  exact ⟨fun ho job hj ha => h.launch hi ho hj ha, fun ho hc => h.wait hi ho hc,
    fun ho hc => h.readResult hi ho hc⟩

def clashing : Processor :=
  let program := ["GWRITE 1, 9", "GEXEC SUM, 0, 0, 4", "GWAIT", "GEXEC ADD, 0, 8, 0", "GRES R1",
    "GEXEC DOT, 0, 8, 4"]
  { new {} with program := .ofInstructions program }

theorem bridge_protocol_clashing : ∃ u, clashing.unit = some u ∧
    ((clashing.sinceReset (wholeSteps 4)).advance .whole).next.registers.read 1 = 9 ∧
    ((clashing.sinceReset (wholeSteps 5)).advance .whole).result =
      .faulted (.refused (.busy .add)) := by
  let sum : Instruction := ⟨.gres, [.register 1]⟩
  let dot : Instruction :=
    ⟨.gexec, [.vectorOp .dot, .immediate 0, .immediate 8, .immediate 4]⟩
  refine ⟨_, rfl, ?_, ?_⟩
  · have hi : (clashing.sinceReset (wholeSteps 4)).current? = some sum := by decide +kernel
    have hc : ((clashing.sinceReset (wholeSteps 4)).advance .whole).result = .committed := by
      decide +kernel
    obtain ⟨r, hr, hread⟩ := (bridge_protocol clashing _ rfl _ .whole sum hi).2.2 rfl hc
    cases hr
    rw [hread]
    decide +kernel
  · have hi : (clashing.sinceReset (wholeSteps 5)).current? = some dot := by decide +kernel
    have hw : awaited (clashing.history (wholeSteps 5)) =
        some ⟨.add, Cell.ofNat 0, Cell.ofNat 8, 0, none⟩ := by decide +kernel
    have ha : ((clashing.sinceReset (wholeSteps 5)).advance .whole).result.isAdvanced = false :=
      isAdvanced_step _
    have hbusy := (bridge_protocol clashing _ rfl _ .whole dot hi).1 rfl
      ⟨.dot, Cell.ofNat 0, Cell.ofNat 8, 4, none⟩ (by decide +kernel) ha
    exact (hbusy.1 .add).2 ⟨_, hw, rfl⟩

end Processor

end VectorMachine
