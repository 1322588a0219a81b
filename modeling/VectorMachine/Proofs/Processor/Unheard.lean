import VectorMachine.Proofs.Processor.Frame
import VectorMachine.Proofs.Processor.HostStepping
import VectorMachine.Proofs.Processor.Runs
import VectorMachine.Proofs.VectorUnit.Unheard

namespace VectorMachine

theorem Action.onUnit_unheard (a : Action) (primary : Vector Word 256) (u : VectorUnit) :
    a.onUnit primary u.unheard = (a.onUnit primary u).unheard := by
  cases a with
  | launch job =>
      have hwork : u.unheard.work = u.work := rfl
      simp only [onUnit, Processor.launched, VectorUnit.start_eq, hwork]
      cases u.work <;> rfl
  | drain => exact u.drain_unheard.2
  | _ => rfl

namespace Processor

def muted (p : Processor) : Processor := { p with listeners := {}, tracing := false }

def unheard (p : Processor) : Processor :=
  { p with listeners := {}, tracing := false, unit := p.unit.map VectorUnit.unheard }

section Instruction

variable (p : Processor) (i : Instruction)

theorem unheard_of_none {p : Processor} (hu : p.unit = none) : p.unheard = p.muted := by
  rw [unheard, hu, Option.map_none, muted, hu]

theorem unheard_of_some {p : Processor} {u : VectorUnit} (hu : p.unit = some u) :
    p.unheard = p.muted.withUnit u.unheard := by
  rw [unheard, hu]
  rfl

theorem resolve_muted : p.muted.resolve i = p.resolve i := rfl

theorem plan_muted : p.muted.plan i = p.plan i := rfl

theorem viewsAlike_unheard (u : VectorUnit) : i.ViewsAlike p u u.unheard :=
  viewsAlike_refl i p u

theorem resolve_unheard : p.unheard.resolve i = p.resolve i := by
  cases hu : p.unit with
  | none => rw [unheard_of_none hu, resolve_muted]
  | some u =>
      have hmuted : p.muted.unit = some u := hu
      rw [unheard_of_some hu, resolve_withUnit hmuted (viewsAlike_unheard _ i u), resolve_muted]

theorem plan_unheard : p.unheard.plan i = p.plan i := by
  cases hu : p.unit with
  | none => rw [unheard_of_none hu, plan_muted]
  | some u =>
      have hmuted : p.muted.unit = some u := hu
      rw [unheard_of_some hu, plan_withUnit hmuted (viewsAlike_unheard _ i u) rfl, plan_muted]

end Instruction

section Action

variable (p : Processor) (pc : Nat) (a : Action)

theorem effect_muted : (p.muted.effect pc a).1 = (p.effect pc a).1.muted := by
  cases a with
  | latch r out => cases r <;> rfl
  | transferIn | launch | drain | poke =>
      simp only [effect, fst_onUnit]
      rfl
  | transferOut src dst len =>
      simp only [effect]
      rw [show p.muted.unit = p.unit from rfl]
      split <;> rfl
  | _ => rfl

theorem effect_unheard : (p.unheard.effect pc a).1 = (p.effect pc a).1.unheard := by
  cases hu : p.unit with
  | none => rw [unheard_of_none hu, effect_muted, unheard_of_none (no_unit_effect hu)]
  | some u =>
      have hmuted : p.muted.unit = some u := hu
      have hviews : a.ViewsAlike u u.unheard := by
        cases a with
        | transferOut src dst len => exact fun k _ => rfl
        | _ => trivial
      rw [unheard_of_some hu, effect_withUnit hmuted hviews, effect_muted, a.onUnit_unheard,
        unheard_of_some (unit_effect hu pc a)]
      rfl

theorem nextPc_unheard : p.unheard.nextPc pc a = p.nextPc pc a := by
  cases a <;> rfl

theorem settle_unheard : (p.unheard.settle pc a).1 = (p.settle pc a).1.unheard := by
  simp only [settle, effect_unheard, nextPc_unheard]
  rfl

end Action

structure Turn.Unheard (s t : Turn) : Prop where
  result : s.result = t.result
  next : s.next = t.next.unheard

section Calls

variable (p : Processor)

theorem perform_unheard (pc : Nat) (k : OpClass) (a : Action) :
    (p.unheard.perform pc k a).Unheard (p.perform pc k a) := by
  constructor
  · rw [result_perform_eq, result_perform_eq]
    rfl
  · rw [next_perform, next_perform, performed, settle_unheard]
    rfl

theorem commit_unheard (pc : Nat) (i : Instruction) :
    (p.unheard.commit pc i).Unheard (p.commit pc i) := by
  have hlanded : { p.unheard with flight := none } = { p with flight := none }.unheard := rfl
  simp only [commit_eq, hlanded, resolve_unheard]
  cases { p with flight := none }.resolve i with
  | error f => exact ⟨rfl, rfl⟩
  | ok a => exact perform_unheard _ _ _ _

theorem commitText_unheard (pc : Nat) (text : String) :
    (p.unheard.commitText pc text).Unheard (p.commitText pc text) := by
  simp only [commitText]
  cases Instruction.decode text with
  | error e => exact ⟨rfl, rfl⟩
  | ok i => exact p.commit_unheard pc i

theorem step_unheard : p.unheard.step.Unheard p.step := by
  have hhalted : p.unheard.halted = p.halted := rfl
  have hflight : p.unheard.flight = p.flight := rfl
  have htext : p.unheard.program.instruction? p.unheard.pc = p.program.instruction? p.pc := rfl
  simp only [step, hhalted, hflight, htext]
  cases p.halted with
  | true => exact ⟨rfl, rfl⟩
  | false =>
      cases p.flight with
      | none =>
          cases p.program.instruction? p.pc with
          | none => exact ⟨rfl, rfl⟩
          | some text => exact p.commitText_unheard p.pc text
      | some flight =>
          cases flight with
          | undecoded pc text plan stage => exact p.commitText_unheard pc text
          | decoded pc text i plan stage => exact p.commit_unheard pc i

theorem decodeStep_unheard (pc : Nat) (text : String) :
    (p.unheard.decodeStep pc text).Unheard (p.decodeStep pc text) := by
  simp only [decodeStep]
  cases Instruction.decode text with
  | error e => exact ⟨rfl, rfl⟩
  | ok i =>
      simp only [plan_unheard]
      exact ⟨rfl, rfl⟩

theorem planStep_unheard (pc : Nat) (text : String) (i : Instruction) (plan : List MicroOp) :
    (p.unheard.planStep pc text i plan).Unheard (p.planStep pc text i plan) := by
  cases plan with
  | nil => exact p.commit_unheard pc i
  | cons m rest =>
      cases rest with
      | nil =>
          have h := (p.replay ⟨pc, text, some i, [], m.stage⟩ m).1.commit_unheard pc i
          exact ⟨h.result, h.next⟩
      | cons n rest => exact ⟨rfl, rfl⟩

theorem microStep_unheard : p.unheard.microStep.Unheard p.microStep := by
  have hhalted : p.unheard.halted = p.halted := rfl
  have hflight : p.unheard.flight = p.flight := rfl
  have htext : p.unheard.program.instruction? p.unheard.pc = p.program.instruction? p.pc := rfl
  simp only [microStep, hhalted, hflight, htext]
  cases p.halted with
  | true => exact ⟨rfl, rfl⟩
  | false =>
      cases p.flight with
      | none => cases p.program.instruction? p.pc <;> exact ⟨rfl, rfl⟩
      | some flight =>
          cases flight with
          | undecoded pc text plan stage => exact p.decodeStep_unheard pc text
          | decoded pc text i plan stage => exact p.planStep_unheard pc text i plan

theorem advance_unheard (pace : Pace) : (p.unheard.advance pace).Unheard (p.advance pace) := by
  cases pace with
  | whole => exact p.step_unheard
  | micro => exact p.microStep_unheard

end Calls

theorem unheard_unheard (p : Processor) : p.unheard.unheard = p.unheard := by
  cases hu : p.unit with
  | none => simp only [unheard, hu, Option.map_none]
  | some u =>
      simp only [unheard, hu, Option.map_some]
      rfl

theorem serve_unheard (p : Processor) (request : Request) :
    (p.unheard.serve request).1.unheard = (p.serve request).1.unheard := by
  have hsame := p.unheard_unheard
  cases request with
  | call pace => exact (congrArg unheard (p.advance_unheard pace).next).trans (unheard_unheard _)
  | reset | load program =>
      simp only [serve, load, reset, unheard]
      cases p.unit <;> rfl
  | subscribe recipient | unsubscribe id => exact hsame
  | setRegister r w => exact unheard_unheard (p.setRegister r w)
  | writeMemory a w => exact unheard_unheard (p.writeMemory a w)
  | attach u | detach => rfl
  | unit request =>
      simp only [serve, unheard]
      cases p.unit with
      | none => rfl
      | some u =>
          simp only [Option.map_some, (u.serve_unheard request).2]
          rfl

theorem Runs.unheard {pace : Pace} {limit start calls : Nat} {p q : Processor} {o : Outcome}
    (h : Runs pace limit start p calls o q) :
    Runs pace limit start p.unheard calls o q.unheard := by
  induction h with
  | stepLimit h => exact .stepLimit h
  | @halted p h hr =>
      have ha := p.advance_unheard pace
      have hnext := Runs.halted (p := p.unheard) h (ha.result.trans hr)
      rw [ha.next] at hnext
      exact hnext
  | @faulted p f h hr =>
      have ha := p.advance_unheard pace
      have hnext := Runs.faulted (p := p.unheard) h (ha.result.trans hr)
      rw [ha.next] at hnext
      exact hnext
  | @goesOn p q calls o h hg rest ih =>
      have ha := p.advance_unheard pace
      rw [Turn.goesOn, ← ha.result] at hg
      rw [← ha.next] at ih
      exact .goesOn (p := p.unheard) h hg ih

theorem run_unheard (p : Processor) (pace : Pace) (limit : Nat) :
    (p.unheard.run pace limit).outcome = (p.run pace limit).outcome ∧
      (p.unheard.run pace limit).processor = (p.run pace limit).processor.unheard := by
  obtain ⟨calls, h⟩ := exists_runs_run p pace limit
  obtain ⟨made, h'⟩ := exists_runs_run p.unheard pace limit
  exact h'.unique h.unheard

end Processor

end VectorMachine
