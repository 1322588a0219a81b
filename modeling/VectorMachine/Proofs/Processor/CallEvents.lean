import VectorMachine.Proofs.Processor.FaultAtomicity
import VectorMachine.Proofs.Processor.OtherUnit

namespace VectorMachine

def Event.processor? : Event → Option Processor.Event
  | .processor e => some e
  | .unit _ => none

namespace Processor

namespace Event

def isStep : Event → Bool
  | .step .. => true
  | _ => false

def isMicro : Event → Bool
  | .micro .. => true
  | _ => false

def isError : Event → Bool
  | .error .. => true
  | _ => false

end Event

def Turn.told (t : Turn) : List Event :=
  t.events.filterMap Event.processor?

structure Tally (p q : Processor) (es : List Event) : Prop where
  retired : q.counters.retired = p.counters.retired + es.countP Event.isStep
  microOps : q.counters.microOps = p.counters.microOps + es.countP Event.isMicro
  faults : q.counters.faults = p.counters.faults + es.countP Event.isError

namespace Tally

variable {p q r : Processor} {es ds : List Event}

theorem of_counters_eq (h : q.counters = p.counters) : Tally p q [] := by
  constructor <;> rw [h] <;> rfl

theorem congr (h : Tally p q es) (hc : r.counters = p.counters) : Tally r q es := by
  obtain ⟨retired, microOps, faults⟩ := h
  rw [← hc] at retired microOps faults
  exact ⟨retired, microOps, faults⟩

theorem append (h : Tally p q es) (k : Tally q r ds) : Tally p r (es ++ ds) := by
  constructor
  · rw [k.retired, h.retired, List.countP_append, Nat.add_assoc]
  · rw [k.microOps, h.microOps, List.countP_append, Nat.add_assoc]
  · rw [k.faults, h.faults, List.countP_append, Nat.add_assoc]

end Tally

structure Altered (before after : Registers) (rs : List Register) : Prop where
  sorted : rs.Pairwise (· < ·)
  mem_iff : ∀ r, r ∈ rs ↔ before.read r ≠ after.read r

def Snapshot.stopped (s : Snapshot) : Snapshot :=
  { s with halted := true, stage := none }

inductive Ends (p : Processor) (i? : Option Instruction) (q : Processor) :
    Progress → List Event → Prop where
  | committed {i : Instruction} {rs : List Register} (hi : i? = some i) (hop : i.opcode ≠ .hlt)
      (hq : q.halted = false) (hrs : Altered p.registers q.registers rs) :
      Ends p i? q .committed [.step q.snapshot rs]
  | halted {i : Instruction} {rs : List Register} (hi : i? = some i) (hop : i.opcode = .hlt)
      (hq : q.halted = true) (hrs : Altered p.registers q.registers rs) :
      Ends p i? q .halted [.step q.snapshot rs, .halt q.snapshot]
  | faulted (f : Fault) (hq : q.halted = true) :
      Ends p i? q (.faulted f) [.error p.snapshot.stopped f.message]

inductive Shown : Pace → List MicroOp → Prop where
  | whole : Shown .whole []
  | micro {m : MicroOp} (h : m.stage = .writeback) : Shown .micro [m]

def micros (p : Processor) (ms : List MicroOp) : List Event :=
  ms.map fun m => .micro { p.snapshot with stage := some m.stage } m

def Round (stages : List Stage) : Prop :=
  stages = [.fetch, .decode, .execute, .writeback] ∨
    stages = [.fetch, .decode, .execute, .execute, .writeback]

theorem round_plan (p : Processor) (i : Instruction) :
    Round ([.fetch, .decode] ++ (p.plan i).map MicroOp.stage) := by
  unfold plan
  cases i.opcode with
  | jumpIf c =>
      simp only [planJump]
      split <;> exact .inl rfl
  | _ => first | exact .inl rfl | exact .inr rfl

theorem Round.last {stages : List Stage} {s : Stage} (h : Round (stages ++ [s])) :
    s = .writeback := by
  rcases h with h | h <;> simpa using congrArg List.getLast? h

theorem stage_of_suffix_plan {p : Processor} {i : Instruction} {m : MicroOp}
    (h : [m] <:+ p.plan i) : m.stage = .writeback := by
  obtain ⟨before, hplan⟩ := h
  have hround := p.round_plan i
  rw [← hplan, List.map_append, ← List.append_assoc] at hround
  exact hround.last

inductive Tells (p : Processor) (pace : Pace) (q : Processor) : Progress → List Event → Prop where
  | silent (hp : p.halted = true) (hq : q = p) : Tells p pace q .halted []
  | ranOut (hp : p.halted = false) (hend : p.program.instruction? p.pc = none)
      (hq : q.halted = true) : Tells p pace q .halted [.halt q.snapshot]
  | advanced {text : String} {m : MicroOp} (hp : p.halted = false)
      (ht : p.program.instruction? p.pc = some text) (hpace : pace = .micro)
      (hstage : q.stage? = some m.stage) :
      Tells p pace q (.advanced m.stage) [.micro q.snapshot m]
  | ended {text : String} {ms : List MicroOp} {result : Progress} {es : List Event}
      (hp : p.halted = false) (ht : p.program.instruction? p.pc = some text)
      (hms : Shown pace ms ∨ p.current? = none ∧ ms = []) (h : Ends p p.current? q result es) :
      Tells p pace q result (p.micros ms ++ es)

theorem Ends.congr {p p' q : Processor} {i? : Option Instruction} {result : Progress}
    {es : List Event} (h : Ends p i? q result es) (hs : p'.snapshot.stopped = p.snapshot.stopped) :
    Ends p' i? q result es := by
  have hregisters : p'.registers = p.registers := congrArg Snapshot.registers hs
  cases h with
  | committed hi hop hq hrs => exact .committed hi hop hq (hregisters ▸ hrs)
  | halted hi hop hq hrs => exact .halted hi hop hq (hregisters ▸ hrs)
  | faulted f hq =>
      rw [← hs]
      exact .faulted f hq

structure Turn.Settles (t : Turn) (p : Processor) (i? : Option Instruction) : Prop where
  ends : Ends p i? t.next t.result t.told
  tally : Tally p t.next t.told
  listeners_eq : t.next.listeners = p.listeners

theorem Turn.Settles.of_landed {t : Turn} {p : Processor} {i? : Option Instruction}
    (h : t.Settles { p with flight := none } i?) : t.Settles p i? :=
  ⟨h.ends.congr rfl, h.tally.congr rfl, h.listeners_eq⟩

structure Turn.Reports (t : Turn) (p : Processor) (pace : Pace) : Prop where
  tells : Tells p pace t.next t.result t.told
  tally : Tally p t.next t.told
  listeners_eq : t.next.listeners = p.listeners

theorem told_announce {p : Processor} (h : p.listeners.heard = true) (event : Snapshot → Event) :
    (p.announce event).filterMap Event.processor? = [event p.snapshot] := by
  rw [announce, if_pos h]
  rfl

theorem processor_map_unit (events : List VectorUnit.Event) :
    (events.map VectorMachine.Event.unit).filterMap Event.processor? = [] := by
  simp [List.filterMap_map, Function.comp_def, Event.processor?]

section Effect

variable (p : Processor) (pc : Nat) (a : Action)

theorem listeners_onUnit (f : VectorUnit → VectorUnit × List VectorUnit.Event) :
    (p.onUnit f).1.listeners = p.listeners := by
  unfold onUnit
  split <;> rfl

theorem processor_onUnit (f : VectorUnit → VectorUnit × List VectorUnit.Event) :
    (p.onUnit f).2.filterMap Event.processor? = [] := by
  unfold onUnit
  split
  · rfl
  · exact processor_map_unit _

theorem listeners_settle : (p.settle pc a).1.listeners = p.listeners := by
  simp only [settle]
  cases a with
  | latch r out => cases r <;> rfl
  | transferIn | launch | drain | poke => exact listeners_onUnit _ _
  | transferOut src dst len =>
      simp only [effect]
      split <;> rfl
  | _ => rfl

theorem processor_settle : (p.settle pc a).2.filterMap Event.processor? = [] := by
  simp only [settle]
  cases a with
  | transferIn | launch | drain | poke => exact processor_onUnit _ _
  | transferOut src dst len =>
      simp only [effect]
      split
      · rfl
      · exact processor_map_unit _
  | _ => rfl

end Effect

theorem halts_of_resolve {p : Processor} {i : Instruction} {a : Action}
    (h : p.resolve i = .ok a) : a.halts = decide (i.opcode = .hlt) := by
  cases resolved_of_resolve h with
  | gexec ho | nop ho | hlt ho | mov ho | load ho | store ho | alu ho | cmp ho | jmp ho | taken ho
  | notTaken ho | call ho | ret ho | push ho | pop ho | gload ho | gstore ho | gwait ho | gres ho
  | gread ho | gwrite ho =>
      rw [ho]
      rfl

theorem altered_changed (before after : Registers) :
    Altered before after (Registers.changed before after) where
  sorted := by
    have h : (List.finRange 8).Pairwise (· < ·) := by decide
    exact h.filter _
  mem_iff _ := Registers.mem_changed

def performed (p : Processor) (pc : Nat) (k : OpClass) (a : Action) : Processor :=
  { (p.settle pc a).1 with counters := (p.settle pc a).1.counters.retire k }

section Performed

variable (p : Processor) (pc : Nat) (k : OpClass) (a : Action)

theorem next_perform : (p.perform pc k a).next = p.performed pc k a :=
  next_finish _ _ _

theorem result_perform_eq :
    (p.perform pc k a).result =
      if (p.performed pc k a).halted then .halted else .committed :=
  result_finish _ _ _

theorem listeners_performed : (p.performed pc k a).listeners = p.listeners :=
  listeners_settle p pc a

theorem halted_performed : (p.performed pc k a).halted = (p.halted || a.halts) := rfl

theorem result_perform (hp : p.halted = false) :
    (p.perform pc k a).result = if a.halts then .halted else .committed := by
  rw [result_perform_eq, halted_performed, hp, Bool.false_or]

theorem next_commit {i : Instruction} (h : p.resolve i = .ok a) :
    (p.commit pc i).next = { p with flight := none }.performed pc i.opcode.opClass a := by
  simp only [commit_eq, resolve_landed, h, carryOut, next_perform]

theorem result_commit_eq_faulted_iff {i : Instruction} {f : Fault} :
    (p.commit pc i).result = .faulted f ↔ p.resolve i = .error f := by
  simp only [commit_eq, resolve_landed]
  cases p.resolve i with
  | error g =>
      constructor
      · intro h
        exact congrArg _ (Progress.faulted.inj h)
      · intro h
        exact congrArg _ (Except.error.inj h)
  | ok a =>
      constructor
      · intro h
        exact absurd h (perform_ne_faulted _ _ _ _ _)
      · intro h
        cases h

theorem tally_performed {es : List Event} (hstep : es.countP Event.isStep = 1)
    (hmicro : es.countP Event.isMicro = 0) (herror : es.countP Event.isError = 0) :
    Tally p (p.performed pc k a) es := by
  constructor
  · rw [hstep]
    rfl
  · rw [hmicro]
    cases k <;> rfl
  · rw [herror]
    cases k <;> rfl

end Performed

theorem result_commit {p : Processor} {i : Instruction} {a : Action} (pc : Nat)
    (hp : p.halted = false) (h : p.resolve i = .ok a) :
    (p.commit pc i).result = if a.halts then .halted else .committed := by
  simp only [commit_eq, resolve_landed, h]
  exact result_perform { p with flight := none } pc _ a hp

theorem result_commit_eq_committed {p : Processor} {i : Instruction} {a : Action} {pc : Nat}
    (hp : p.halted = false) (h : p.resolve i = .ok a) (ha : a.halts = false) :
    (p.commit pc i).result = .committed := by
  rw [result_commit pc hp h, ha]
  rfl

theorem told_finish {done : Processor} {es : List VectorMachine.Event} (registers : Registers)
    (hl : done.listeners.heard = true) (hes : es.filterMap Event.processor? = []) :
    (finish registers done es).told =
      .step done.snapshot (Registers.changed registers done.registers) ::
        if done.halted then [.halt done.snapshot] else [] := by
  have hstep := told_announce hl fun state =>
    .step state (Registers.changed registers done.registers)
  have hhalt := told_announce hl .halt
  simp only [Turn.told, finish]
  split
  · rw [List.filterMap_append, List.filterMap_append, hes, hstep, hhalt]
    rfl
  · rw [List.filterMap_append, hes, hstep]
    rfl

section Ends

variable {p : Processor} (hl : p.listeners.heard = true)

include hl

theorem told_perform (hp : p.halted = false) (pc : Nat) (k : OpClass) (a : Action) :
    (p.perform pc k a).told =
      .step (p.performed pc k a).snapshot
          (Registers.changed p.registers (p.performed pc k a).registers) ::
        if a.halts then [.halt (p.performed pc k a).snapshot] else [] := by
  have hheard : (p.performed pc k a).listeners.heard = true := listeners_performed p pc k a ▸ hl
  have hh : (p.performed pc k a).halted = a.halts := congrArg (· || a.halts) hp
  rw [← hh]
  exact told_finish p.registers hheard (processor_settle p pc a)

theorem settles_perform {i : Instruction} {a : Action} (hp : p.halted = false)
    (ha : a.halts = decide (i.opcode = .hlt)) (pc : Nat) (k : OpClass) :
    (p.perform pc k a).Settles p (some i) := by
  have hhalted := halted_performed p pc k a
  have hrs := altered_changed p.registers (p.performed pc k a).registers
  rw [hp, Bool.false_or, ha] at hhalted
  constructor
  · rw [next_perform, result_perform p pc k a hp, told_perform hl hp, ha]
    by_cases hop : i.opcode = .hlt
    · rw [decide_eq_true hop] at hhalted ⊢
      exact .halted rfl hop hhalted hrs
    · rw [decide_eq_false hop] at hhalted ⊢
      exact .committed rfl hop hhalted hrs
  · rw [next_perform, told_perform hl hp]
    cases a.halts <;> exact tally_performed p pc k a rfl rfl rfl
  · rw [next_perform, listeners_performed]

theorem told_fail (f : Fault) : (p.fail f).told = [.error p.snapshot.stopped f.message] := by
  simp only [Turn.told, fail]
  rw [told_announce (by exact hl)]
  rfl

theorem settles_fail (i? : Option Instruction) (f : Fault) : (p.fail f).Settles p i? := by
  constructor
  · rw [told_fail hl]
    exact .faulted f rfl
  · rw [told_fail hl]
    exact ⟨rfl, rfl, rfl⟩
  · rfl

theorem settles_commit {i : Instruction} (hp : p.halted = false) (pc : Nat) :
    (p.commit pc i).Settles p (some i) := by
  simp only [commit_eq, carryOut]
  split
  · exact (settles_fail (p := { p with flight := none }) hl (some i) _).of_landed
  · rename_i a ha
    exact (settles_perform (p := { p with flight := none }) hl hp (halts_of_resolve ha) pc
      i.opcode.opClass).of_landed

theorem settles_commitText {text : String} (hp : p.halted = false)
    (hi : p.current? = (Instruction.decode text).toOption) (pc : Nat) :
    (p.commitText pc text).Settles p p.current? := by
  simp only [commitText]
  split
  · exact settles_fail hl _ _
  · rename_i i hd
    rw [hd] at hi
    rw [hi]
    exact settles_commit hl hp pc

theorem told_runOut : p.runOut.told = [.halt p.runOut.next.snapshot] := by
  simp only [Turn.told, runOut]
  rw [told_announce (by exact hl)]

theorem reports_runOut (hp : p.halted = false) (hend : p.program.instruction? p.pc = none)
    (pace : Pace) : p.runOut.Reports p pace := by
  constructor
  · rw [told_runOut hl]
    exact .ranOut hp hend rfl
  · rw [told_runOut hl]
    exact ⟨rfl, rfl, rfl⟩
  · rfl

theorem told_replay (flight : Flight) (m : MicroOp) (h : flight.stage = m.stage) :
    (p.replay flight m).2.filterMap Event.processor? = p.micros [m] := by
  simp only [replay]
  rw [told_announce (by exact hl)]
  simp only [micros, List.map_cons, List.map_nil, ← h]
  rfl

theorem reports_replay (flight : Flight) (m : MicroOp) {text : String} (hp : p.halted = false)
    (ht : p.program.instruction? p.pc = some text) (h : flight.stage = m.stage) :
    (Turn.mk (.advanced m.stage) (p.replay flight m).1 (p.replay flight m).2).Reports p .micro := by
  have hstage : (p.replay flight m).1.stage? = some m.stage := congrArg some h
  have htold : (Turn.mk (.advanced m.stage) (p.replay flight m).1 (p.replay flight m).2).told =
      [.micro (p.replay flight m).1.snapshot m] := by
    rw [Turn.told, told_replay hl flight m h]
    simp only [micros, List.map_cons, List.map_nil, ← hstage]
    rfl
  constructor
  · rw [htold]
    exact .advanced hp ht rfl hstage
  · rw [htold]
    exact ⟨rfl, rfl, rfl⟩
  · rfl

end Ends

theorem Turn.Settles.reports {t : Turn} {p : Processor} {pace : Pace} {text : String}
    (h : t.Settles p p.current?) (hp : p.halted = false)
    (ht : p.program.instruction? p.pc = some text)
    (hpace : pace = .whole ∨ p.current? = none) : t.Reports p pace := by
  have hms : Shown pace [] ∨ p.current? = none ∧ ([] : List MicroOp) = [] := by
    rcases hpace with rfl | hnone
    · exact .inl .whole
    · exact .inr ⟨hnone, rfl⟩
  exact ⟨.ended hp ht hms h.ends, h.tally, h.listeners_eq⟩

section Calls

variable {p : Processor} (hl : p.listeners.heard = true)

include hl

theorem reports_step (hfit : p.FlightFits) : p.step.Reports p .whole := by
  simp only [step]
  by_cases hh : p.halted = true
  · rw [if_pos hh]
    exact ⟨.silent hh rfl, .of_counters_eq rfl, rfl⟩
  · have hp : p.halted = false := by simpa using hh
    rw [if_neg hh]
    cases hf : p.flight with
    | none =>
        cases ht : p.program.instruction? p.pc with
        | none => exact reports_runOut hl hp ht .whole
        | some text =>
            have hs := settles_commitText hl hp (current?_of_text hp ht) p.pc
            exact hs.reports hp ht (.inl rfl)
    | some flight =>
        have hfits := hfit _ hf
        cases flight with
        | undecoded pc text plan stage =>
            have hs := settles_commitText hl hp (current?_of_fits hfits) pc
            exact hs.reports hp hfits.text_eq (.inl rfl)
        | decoded pc text i plan stage =>
            have hs := settles_commit (i := i) hl hp pc
            rw [← current?_of_decoded hfits] at hs
            exact hs.reports hp hfits.text_eq (.inl rfl)

theorem reports_decodeStep {pc : Nat} {text : String} (hp : p.halted = false)
    (ht : p.program.instruction? p.pc = some text) : (p.decodeStep pc text).Reports p .micro := by
  simp only [decodeStep]
  split
  · rename_i e hd
    have hnone : p.current? = none := by rw [current?_of_text hp ht, hd]; rfl
    exact (settles_fail hl _ _).reports hp ht (.inr hnone)
  · exact reports_replay hl ⟨pc, text, some _, _, .decode⟩ ⟨.decode, _, _, _, _⟩ hp ht rfl

theorem told_planStep_last (pc : Nat) (text : String) (i : Instruction) (m : MicroOp) :
    (p.planStep pc text i [m]).told =
      p.micros [m] ++ ((p.replay ⟨pc, text, some i, [], m.stage⟩ m).1.commit pc i).told := by
  rw [← told_replay hl ⟨pc, text, some i, [], m.stage⟩ m rfl]
  exact List.filterMap_append

theorem reports_planStep {pc : Nat} {text : String} {i : Instruction} {stage : Stage}
    {plan : List MicroOp} (hp : p.halted = false)
    (h : (Flight.mk pc text (some i) plan stage).Fits p) :
    (p.planStep pc text i plan).Reports p .micro := by
  obtain ⟨hd, hne, q, hq⟩ := h.planned
  match plan with
  | [] => exact absurd rfl hne
  | [m] =>
      -- The commit starts from the state that the last step of the plan was shown in; that state
      -- differs from the one before the call in nothing that the commit looks at.
      let shown := (p.replay ⟨pc, text, some i, [], m.stage⟩ m).1
      have hs := settles_commit (p := shown) (i := i) hl hp pc
      have hmicro : Tally p shown (p.micros [m]) := ⟨rfl, rfl, rfl⟩
      constructor
      · rw [told_planStep_last hl]
        refine .ended hp h.text_eq (.inl (.micro (stage_of_suffix_plan hq))) ?_
        rw [current?_of_decoded h]
        exact hs.ends.congr rfl
      · rw [told_planStep_last hl]
        exact hmicro.append hs.tally
      · exact hs.listeners_eq
  | m :: n :: rest => exact reports_replay hl _ m hp h.text_eq rfl

theorem reports_microStep (hfit : p.FlightFits) : p.microStep.Reports p .micro := by
  simp only [microStep]
  by_cases hh : p.halted = true
  · rw [if_pos hh]
    exact ⟨.silent hh rfl, .of_counters_eq rfl, rfl⟩
  · have hp : p.halted = false := by simpa using hh
    rw [if_neg hh]
    cases hf : p.flight with
    | none =>
        cases ht : p.program.instruction? p.pc with
        | none => exact reports_runOut hl hp ht .micro
        | some text =>
            exact reports_replay hl ⟨p.pc, text, none, [], .fetch⟩ ⟨.fetch, _, _, _, _⟩ hp ht rfl
    | some flight =>
        have hfits := hfit _ hf
        cases flight with
        | undecoded pc text plan stage => exact reports_decodeStep hl hp hfits.text_eq
        | decoded pc text i plan stage => exact reports_planStep hl hp hfits

theorem reports_advance (hfit : p.FlightFits) (pace : Pace) : (p.advance pace).Reports p pace := by
  cases pace with
  | whole => exact reports_step hl hfit
  | micro => exact reports_microStep hl hfit

end Calls

end Processor

end VectorMachine
