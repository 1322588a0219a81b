import VectorMachine.Proofs.VectorUnit.Accounting

namespace VectorMachine.VectorUnit

def unheard (u : VectorUnit) : VectorUnit := { u with listeners := {} }

section Step

variable (u : VectorUnit) (job : Job) (batch : Batch)

theorem runPhase_unheard (stage : Stage) : u.unheard.runPhase job batch.number stage =
    (u.runPhase job batch.number stage).unheard := by
  cases stage with
  | writeback =>
      simp only [runPhase, writeBatch]
      split <;> rfl
  | _ => rfl

theorem afterPhase_unheard (stage : Stage) :
    u.unheard.afterPhase job batch stage = (u.afterPhase job batch stage).unheard := by
  simp only [afterPhase, runPhase_unheard]
  rfl

theorem advance_unheard (phase : Option Stage) :
    (u.unheard.advance job batch phase).outcome = (u.advance job batch phase).outcome ∧
      (u.unheard.advance job batch phase).unit = (u.advance job batch phase).unit.unheard := by
  have hwidth : u.unheard.width = u.width := rfl
  simp only [advance, afterPhase_unheard, hwidth]
  split
  · cases batch.next? <;> exact ⟨rfl, rfl⟩
  · exact ⟨rfl, rfl⟩

theorem step_unheard : u.unheard.step.outcome = u.step.outcome ∧
    u.unheard.step.unit = u.step.unit.unheard := by
  have hwork : u.unheard.work = u.work := rfl
  have hwidth : u.unheard.width = u.width := rfl
  simp only [step, hwork, hwidth]
  cases u.work with
  | idle => exact ⟨rfl, rfl⟩
  | queued job =>
      dsimp only
      cases Batch.first? (job.batches u.width) with
      | none => exact ⟨rfl, rfl⟩
      | some batch => exact (u.begin job batch).advance_unheard job batch none
  | running job batch phase => exact u.advance_unheard job batch phase

theorem drain_unheard : u.unheard.drain.steps = u.drain.steps ∧
    u.unheard.drain.unit = u.drain.unit.unheard := by
  induction u using step_induction with
  | idle u h =>
      have hidle : u.unheard.work = .idle := h
      rw [steps_drain_of_idle h, steps_drain_of_idle hidle, unit_drain_of_idle h,
        unit_drain_of_idle hidle]
      exact ⟨rfl, rfl⟩
  | busy u h ih =>
      have hbusy : u.unheard.work ≠ .idle := h
      rw [steps_drain_step h, steps_drain_step hbusy, unit_drain_step h, unit_drain_step hbusy,
        u.step_unheard.2]
      exact ⟨congrArg Nat.succ ih.1, ih.2⟩

end Step

inductive Reply where
  | done
  | started (answer : Except Refusal Unit)
  | stepped (outcome : Outcome)
  | drained (steps : Nat)
  | stored (words : List Word)
  deriving DecidableEq, Repr

def answer (u : VectorUnit) : Request → Reply
  | .start job => .started ((u.start job).map fun _ => ())
  | .step => .stepped u.step.outcome
  | .drain => .drained u.drain.steps
  | .store _ primary src dst len => .stored (u.storeBlock primary src dst len).1.toList
  | .write .. | .load .. | .reset => .done

theorem serve_unheard (u : VectorUnit) (r : Request) :
    u.unheard.answer r = u.answer r ∧ u.unheard.serve r = (u.serve r).unheard := by
  cases r with
  | start job =>
      have hwork : u.unheard.work = u.work := rfl
      simp only [answer, serve, start_eq, hwork]
      cases u.work <;> exact ⟨rfl, rfl⟩
  | step => exact ⟨congrArg Reply.stepped u.step_unheard.1, u.step_unheard.2⟩
  | drain => exact ⟨congrArg Reply.drained u.drain_unheard.1, u.drain_unheard.2⟩
  | _ => exact ⟨rfl, rfl⟩

end VectorMachine.VectorUnit
