import VectorMachine.Proofs.VectorUnit.Steps
import VectorMachine.VectorUnit.Transfer

namespace VectorMachine.VectorUnit

inductive Request where
  | start (job : Job)
  | step
  | drain
  | write (a : UnitCell) (w : Word)
  | load (size : Nat) (primary : Vector Word size) (src : PrimaryCell) (dst : UnitCell) (len : Nat)
  | store (size : Nat) (primary : Vector Word size) (src : UnitCell) (dst : PrimaryCell) (len : Nat)
  | reset

def Request.passive : Request → Bool
  | .step | .drain | .reset => false
  | _ => true

def serve (u : VectorUnit) : Request → VectorUnit
  | .start job => (u.start job).toOption.getD u
  | .step => u.step.unit
  | .drain => u.drain.unit
  | .write a w => u.write a w
  | .load _ primary src dst len => (u.loadBlock primary src dst len).1
  | .store _ primary src dst len => (u.storeBlock primary src dst len).2.1
  | .reset => u.reset.1

def after (u : VectorUnit) (requests : List Request) : VectorUnit :=
  requests.foldl serve u

@[simp]
theorem after_nil (u : VectorUnit) : u.after [] = u := rfl

@[simp]
theorem after_append (u : VectorUnit) (first rest : List Request) :
    u.after (first ++ rest) = (u.after first).after rest :=
  List.foldl_append

@[simp]
theorem after_cons (u : VectorUnit) (r : Request) (rest : List Request) :
    u.after (r :: rest) = (u.serve r).after rest := rfl

theorem serve_step (u : VectorUnit) : u.serve .step = u.step.unit := rfl

theorem serve_start (u : VectorUnit) (job : Job) :
    u.serve (.start job) = if u.work = .idle then { u with work := .queued job } else u := by
  simp only [serve, start_eq]
  cases u.work <;> rfl

theorem width_serve (u : VectorUnit) (r : Request) :
    (u.serve r).width = u.width := by
  cases r with
  | start job =>
      rw [serve_start]
      split <;> rfl
  | step => exact u.steps_step.width_eq
  | drain => exact u.width_drain
  | reset => exact u.width_clearLanes
  | _ => rfl

end VectorMachine.VectorUnit
