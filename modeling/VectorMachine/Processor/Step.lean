import VectorMachine.Instruction.Decode
import VectorMachine.Processor.Execute
import VectorMachine.Processor.Plan

namespace VectorMachine.Processor

inductive Progress where
  | advanced (stage : Stage)
  | committed
  | halted
  | faulted (f : Fault)
  deriving DecidableEq, Repr

structure Turn where
  result : Progress
  next : Processor
  events : List VectorMachine.Event
  deriving DecidableEq, Repr

def fail (p : Processor) (f : Fault) : Turn :=
  let stopped :=
    { p with
      halted := true
      flight := none
      lastFault := some f
      counters := { p.counters with faults := p.counters.faults + 1 } }
  ⟨.faulted f, stopped, stopped.announce fun state => .error state f.message⟩

def runOut (p : Processor) : Turn :=
  let stopped := { p with halted := true, flight := none }
  ⟨.halted, stopped, stopped.announce .halt⟩

def follow (p : Processor) (pc : Nat) : Flow → Processor
  | .next => { p with pc := pc + 1 }
  | .jump target =>
      { p with
        pc := target
        counters := { p.counters with branchesTaken := p.counters.branchesTaken + 1 } }
  | .halt => { p with halted := true }

def finish (registers : Registers) (done : Processor) (events : List VectorMachine.Event) : Turn :=
  let changed := Registers.changed registers done.registers
  let events := events ++ done.announce fun state => .step state changed
  if done.halted then ⟨.halted, done, events ++ done.announce .halt⟩
  else ⟨.committed, done, events⟩

@[simp]
theorem next_finish (registers : Registers) (done : Processor)
    (events : List VectorMachine.Event) : (finish registers done events).next = done := by
  unfold finish
  dsimp only
  split <;> rfl

@[simp]
theorem result_finish (registers : Registers) (done : Processor)
    (events : List VectorMachine.Event) :
    (finish registers done events).result = if done.halted then .halted else .committed := by
  unfold finish
  dsimp only
  split <;> rfl

def commit (p : Processor) (pc : Nat) (i : Instruction) : Turn :=
  match i.execute pc ⟨{ p with flight := none }, []⟩ with
  | .error f e =>
      let turn := e.processor.fail f
      { turn with events := e.events ++ turn.events }
  | .ok flow e =>
      let counted := { e.processor with counters := e.processor.counters.retire i.opcode.opClass }
      finish p.registers (counted.follow pc flow) e.events

def perform (p : Processor) (pc : Nat) (k : OpClass) (a : Action) : Turn :=
  let (settled, unitEvents) := p.settle pc a
  finish p.registers { settled with counters := settled.counters.retire k } unitEvents

def carryOut (p : Processor) (pc : Nat) (k : OpClass) : Except Fault Action → Turn
  | .error f => p.fail f
  | .ok a => p.perform pc k a

theorem counted_onUnit (p : Processor) (f : VectorUnit → VectorUnit × List VectorUnit.Event) :
    (p.onUnit f).1.counters = p.counters ∧ (p.onUnit f).1.halted = p.halted := by
  unfold onUnit
  split <;> exact ⟨rfl, rfl⟩

theorem counted_effect (p : Processor) (pc : Nat) (a : Action) :
    (p.effect pc a).1.counters = p.counters ∧ (p.effect pc a).1.halted = p.halted := by
  cases a with
  | latch r out => cases r <;> exact ⟨rfl, rfl⟩
  | transferIn src dst len => exact counted_onUnit _ _
  | transferOut src dst len =>
      simp only [effect]
      split <;> exact ⟨rfl, rfl⟩
  | launch job => exact counted_onUnit _ _
  | drain => exact counted_onUnit _ _
  | poke a w => exact counted_onUnit _ _
  | _ => exact ⟨rfl, rfl⟩

theorem follow_effect (p : Processor) (pc : Nat) (k : OpClass) (a : Action) :
    ({ (p.effect pc a).1 with counters := (p.effect pc a).1.counters.retire k }).follow pc
        (p.flow a) =
      { (p.settle pc a).1 with counters := (p.settle pc a).1.counters.retire k } := by
  obtain ⟨hc, hh⟩ := counted_effect p pc a
  cases a with
  | jump _ | call _ | ret =>
      simp only [settle, Action.halts, Bool.or_false]
      cases k <;> rfl
  | stop =>
      simp only [settle, Action.halts, Bool.or_true]
      rfl
  | _ =>
      simp only [flow, follow, settle, Action.branches, Action.halts, nextPc, hc, hh, Bool.or_false]
      rfl

theorem commit_eq (p : Processor) (pc : Nat) (i : Instruction) :
    p.commit pc i =
      ({ p with flight := none }).carryOut pc i.opcode.opClass
        (({ p with flight := none }).resolve i) := by
  rw [commit, Instruction.execute_eq]
  cases ({ p with flight := none }).resolve i with
  | error f => rfl
  | ok a => exact congrArg (fun done => finish p.registers done _) (follow_effect _ pc _ a)

def commitText (p : Processor) (pc : Nat) (text : String) : Turn :=
  match Instruction.decode text with
  | .error e => p.fail (.undecodable e)
  | .ok i => p.commit pc i

def step (p : Processor) : Turn :=
  if p.halted then ⟨.halted, p, []⟩
  else match p.flight with
    | some ⟨pc, _, some i, _, _⟩ => p.commit pc i
    | some ⟨pc, text, none, _, _⟩ => p.commitText pc text
    | none =>
        match p.program.instruction? p.pc with
        | none => p.runOut
        | some text => p.commitText p.pc text

def replay (p : Processor) (flight : Flight) (m : MicroOp) :
    Processor × List VectorMachine.Event :=
  let counters := { p.counters with microOps := p.counters.microOps + 1 }
  let shown := { p with flight := some flight, counters := counters }
  (shown, shown.announce fun state => .micro state m)

def fetchStep (p : Processor) (text : String) : Turn :=
  let m : MicroOp :=
    { stage := .fetch
      description := "Fetch instruction " ++ toString p.pc ++ ": " ++ text
      source := some .pc
      destination := some .instruction
      value := some (Int64.ofNat p.pc) }
  let (shown, events) := p.replay ⟨p.pc, text, none, [], .fetch⟩ m
  ⟨.advanced .fetch, shown, events⟩

def decodeStep (p : Processor) (pc : Nat) (text : String) : Turn :=
  match Instruction.decode text with
  | .error e => p.fail (.undecodable e)
  | .ok i =>
      let m : MicroOp :=
        { stage := .decode
          description := "Decode " ++ i.text
          source := some .instruction
          destination := some (.mnemonic i.opcode) }
      let (shown, events) := p.replay ⟨pc, text, some i, p.plan i, .decode⟩ m
      ⟨.advanced .decode, shown, events⟩

def planStep (p : Processor) (pc : Nat) (text : String) (i : Instruction) :
    List MicroOp → Turn
  | [] => p.commit pc i
  | m :: rest =>
      let (shown, events) := p.replay ⟨pc, text, some i, rest, m.stage⟩ m
      match rest with
      | [] =>
          let turn := shown.commit pc i
          { turn with events := events ++ turn.events }
      | _ :: _ => ⟨.advanced m.stage, shown, events⟩

def microStep (p : Processor) : Turn :=
  if p.halted then ⟨.halted, p, []⟩
  else match p.flight with
    | some ⟨pc, text, some i, plan, _⟩ => p.planStep pc text i plan
    | some ⟨pc, text, none, _, _⟩ => p.decodeStep pc text
    | none =>
        match p.program.instruction? p.pc with
        | none => p.runOut
        | some text => p.fetchStep text

inductive Pace where
  | whole
  | micro
  deriving DecidableEq, Repr

def advance (p : Processor) : Pace → Turn
  | .whole => p.step
  | .micro => p.microStep

/-- The number of calls that an instruction in flight is away from its commit, at most. -/
def distance (p : Processor) : Nat :=
  match p.flight with
  | none => 5
  | some ⟨_, _, none, _, _⟩ => 4
  | some ⟨_, _, some _, plan, _⟩ => plan.length

def Turn.goesOn (t : Turn) : Prop :=
  (∃ stage, t.result = .advanced stage) ∨ t.result = .committed

theorem Turn.goesOn_advanced {t : Turn} {stage : Stage} (h : t.result = .advanced stage) :
    t.goesOn :=
  .inl ⟨stage, h⟩

theorem Turn.goesOn_committed {t : Turn} (h : t.result = .committed) : t.goesOn :=
  .inr h

theorem not_goesOn_fail (p : Processor) (f : Fault) : ¬ (p.fail f).goesOn := by
  simp [fail, Turn.goesOn]

theorem not_goesOn_runOut (p : Processor) : ¬ p.runOut.goesOn := by
  simp [runOut, Turn.goesOn]

def Retires (p q : Processor) : Prop :=
  q.counters.retired = p.counters.retired + 1 ∧ q.flight = none

def Nearer (p q : Processor) : Prop :=
  Retires p q ∨ q.counters.retired = p.counters.retired ∧ q.distance < p.distance

theorem retires_perform {p : Processor} (hp : p.flight = none) (pc : Nat) (k : OpClass)
    (a : Action) : Retires p (p.perform pc k a).next := by
  have hf := (flight_settle p pc a).trans hp
  simp only [perform, next_finish]
  exact ⟨rfl, hf⟩

theorem retires_commit {p : Processor} {pc : Nat} {i : Instruction}
    (h : (p.commit pc i).goesOn) : Retires p (p.commit pc i).next := by
  rw [commit_eq] at h ⊢
  cases hr : ({ p with flight := none } : Processor).resolve i with
  | error f =>
      rw [hr] at h
      exact absurd h (not_goesOn_fail _ _)
  | ok a => exact retires_perform rfl _ _ _

theorem retires_commitText {p : Processor} {pc : Nat} {text : String}
    (h : (p.commitText pc text).goesOn) : Retires p (p.commitText pc text).next := by
  unfold commitText at h ⊢
  split at h
  · exact absurd h (not_goesOn_fail _ _)
  · exact retires_commit h

theorem step_retires {p : Processor} (h : p.step.goesOn) : Retires p p.step.next := by
  unfold step at h ⊢
  split
  · rename_i hh
    simp [hh, Turn.goesOn] at h
  · rename_i hh
    rw [if_neg hh] at h
    split at h
    · exact retires_commit h
    · exact retires_commitText h
    · split at h
      · exact absurd h (not_goesOn_runOut _)
      · exact retires_commitText h

theorem planStep_progress {p : Processor} {pc : Nat} {text : String} {i : Instruction}
    {plan : List MicroOp} (h : (p.planStep pc text i plan).goesOn) :
    Retires p (p.planStep pc text i plan).next ∨
      (p.planStep pc text i plan).next.counters.retired = p.counters.retired ∧
        (p.planStep pc text i plan).next.distance < plan.length := by
  match plan with
  | [] => exact .inl (retires_commit h)
  | [m] =>
      have hr := retires_commit (p := (p.replay ⟨pc, text, some i, [], m.stage⟩ m).1) h
      exact .inl hr
  | m :: n :: rest =>
      refine .inr ⟨rfl, ?_⟩
      simp [planStep, replay, distance]

theorem decodeStep_progress {p : Processor} {pc : Nat} {text : String}
    (h : (p.decodeStep pc text).goesOn) :
    (p.decodeStep pc text).next.counters.retired = p.counters.retired ∧
      (p.decodeStep pc text).next.distance < 4 := by
  unfold decodeStep at h ⊢
  split at h
  · exact absurd h (not_goesOn_fail _ _)
  · rename_i i _
    exact ⟨rfl, Nat.lt_succ_of_le (p.length_plan_le i)⟩

theorem microStep_progress {p : Processor} (h : p.microStep.goesOn) :
    Nearer p p.microStep.next := by
  unfold microStep at h ⊢
  split
  · rename_i hh
    simp [hh, Turn.goesOn] at h
  · rename_i hh
    rw [if_neg hh] at h
    unfold Nearer
    match hf : p.flight with
    | some ⟨pc, text, some i, plan, _⟩ =>
        simp only [hf] at h ⊢
        have hd : p.distance = plan.length := by simp [distance, hf]
        rw [hd]
        exact planStep_progress h
    | some ⟨pc, text, none, _, _⟩ =>
        simp only [hf] at h ⊢
        have hd : p.distance = 4 := by simp [distance, hf]
        rw [hd]
        exact .inr (decodeStep_progress h)
    | none =>
        simp only [hf] at h ⊢
        have hd : p.distance = 5 := by simp [distance, hf]
        rw [hd]
        split at h
        · exact absurd h (not_goesOn_runOut _)
        · exact .inr ⟨rfl, by simp [fetchStep, replay, distance]⟩

theorem advance_progress {p : Processor} {pace : Pace} (h : (p.advance pace).goesOn) :
    Nearer p (p.advance pace).next := by
  cases pace with
  | whole => exact .inl (step_retires h)
  | micro => exact microStep_progress h

end VectorMachine.Processor
