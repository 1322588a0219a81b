import VectorMachine.Processor.Step

namespace VectorMachine.Processor

def bare (p : Processor) : Processor :=
  { p with flight := none, counters := { p.counters with microOps := 0 } }

def Turn.outcome (t : Turn) : Progress × Processor := (t.result, t.next.bare)

theorem value_bare (p : Processor) (o : Operand) : p.bare.value o = p.value o := by
  cases o <;> rfl

theorem target_bare (p : Processor) (o : Operand) : p.bare.target o = p.target o := by
  cases o <;> rfl

section Operands

variable (i : Instruction) (p : Processor) (position : Nat)

theorem valueAt_bare : i.valueAt p.bare position = i.valueAt p position := by
  simp only [Instruction.valueAt, value_bare]

theorem targetAt_bare : i.targetAt p.bare position = i.targetAt p position := by
  simp only [Instruction.targetAt, target_bare]

theorem primaryAt_bare : i.primaryAt p.bare position = i.primaryAt p position := by
  simp only [Instruction.primaryAt, valueAt_bare]

theorem unitCellAt_bare : i.unitCellAt p.bare position = i.unitCellAt p position := by
  simp only [Instruction.unitCellAt, valueAt_bare]

theorem valueAt?_bare : i.valueAt? p.bare position = i.valueAt? p position := by
  simp only [Instruction.valueAt?, value_bare]

end Operands

theorem resolveAlu_bare (p : Processor) (i : Instruction) (op : AluOp) :
    p.bare.resolveAlu i op = p.resolveAlu i op := by
  simp only [resolveAlu, valueAt_bare]
  rfl

theorem resolveLaunch_bare (p : Processor) (u : VectorUnit) (i : Instruction) :
    p.bare.resolveLaunch u i = p.resolveLaunch u i := by
  simp only [resolveLaunch, unitCellAt_bare, valueAt_bare, valueAt?_bare]

theorem resolve_bare (p : Processor) (i : Instruction) : p.bare.resolve i = p.resolve i := by
  simp only [resolve]
  simp only [valueAt_bare, targetAt_bare, primaryAt_bare, unitCellAt_bare, resolveAlu_bare,
    resolveLaunch_bare]
  rfl

theorem onUnit_bare (p : Processor) (f : VectorUnit → VectorUnit × List VectorUnit.Event) :
    (p.bare.onUnit f).1 = (p.onUnit f).1.bare := by
  simp only [onUnit]
  rw [show p.bare.unit = p.unit from rfl]
  split <;> rfl

theorem effect_bare (p : Processor) (pc : Nat) (a : Action) :
    (p.bare.effect pc a).1 = (p.effect pc a).1.bare := by
  cases a with
  | latch r out => cases r <;> rfl
  | transferIn src dst len => exact onUnit_bare p _
  | transferOut src dst len =>
      simp only [effect]
      rw [show p.bare.unit = p.unit from rfl]
      split <;> rfl
  | launch job => exact onUnit_bare p _
  | drain => exact onUnit_bare p _
  | poke cell w => exact onUnit_bare p _
  | _ => rfl

theorem nextPc_bare (p : Processor) (pc : Nat) (a : Action) :
    p.bare.nextPc pc a = p.nextPc pc a := by
  cases a <;> rfl

theorem settle_bare (p : Processor) (pc : Nat) (a : Action) :
    (p.bare.settle pc a).1 = (p.settle pc a).1.bare := by
  simp only [settle, effect_bare, nextPc_bare]
  split <;> rfl

theorem countClass_microOps (c : Counters) (k : OpClass) (n : Nat) :
    { c with microOps := n }.countClass k = { c.countClass k with microOps := n } := by
  cases k <;> rfl

theorem outcome_fail (p : Processor) (f : Fault) : (p.bare.fail f).outcome = (p.fail f).outcome :=
  rfl

theorem outcome_runOut (p : Processor) : p.bare.runOut.outcome = p.runOut.outcome := rfl

theorem outcome_perform (p : Processor) (pc : Nat) (k : OpClass) (a : Action) :
    (p.bare.perform pc k a).outcome = (p.perform pc k a).outcome := by
  have hs := settle_bare p pc a
  have hc := countClass_microOps (p.settle pc a).1.counters k 0
  simp only [perform, Turn.outcome, result_finish, next_finish]
  rw [hs]
  simp only [bare, Counters.retire, hc]
  rfl

theorem outcome_commit (p : Processor) (pc : Nat) (i : Instruction) :
    (p.bare.commit pc i).outcome = (p.commit pc i).outcome := by
  simp only [commit_eq]
  rw [show ({ p.bare with flight := none } : Processor) = { p with flight := none }.bare from rfl,
    resolve_bare]
  cases ({ p with flight := none } : Processor).resolve i with
  | error f => exact outcome_fail _ _
  | ok a => exact outcome_perform _ _ _ _

theorem outcome_commitText (p : Processor) (pc : Nat) (text : String) :
    (p.bare.commitText pc text).outcome = (p.commitText pc text).outcome := by
  simp only [commitText]
  split
  · exact outcome_fail _ _
  · exact outcome_commit _ _ _

end VectorMachine.Processor
