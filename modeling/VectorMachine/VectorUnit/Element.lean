import VectorMachine.VectorOp
import VectorMachine.Word

namespace VectorMachine

def root : (bound n : Nat) → Nat
  | 0, _ => 0
  | k + 1, n => if (k + 1) * (k + 1) ≤ n then k + 1 else root k n

theorem root_sq_le (bound n : Nat) : root bound n * root bound n ≤ n := by
  induction bound with
  | zero => simp [root]
  | succ k ih =>
      unfold root
      split
      · assumption
      · exact ih

theorem lt_root_succ_sq {bound n : Nat} (h : n < (bound + 1) * (bound + 1)) :
    n < (root bound n + 1) * (root bound n + 1) := by
  induction bound with
  | zero => simpa [root] using h
  | succ k ih =>
      unfold root
      split
      · exact h
      · exact ih (by omega)

namespace VectorOp

/-- One lane's result from a source element `a` and a destination element `b`. A quotient by zero
is zero, scaling without a scalar is by one, and the value of a negative word is its complement. -/
def element (op : VectorOp) (a b : Word) (scalar : Option Word) : Word :=
  match op with
  | .add => a + b
  | .sub => a - b
  | .mul | .dot => a * b
  | .div => if b = 0 then 0 else a / b
  | .scale => a * scalar.getD 1
  | .abs => if a.signed then 0 - a else a
  | .sqrt => UInt16.ofNat (root 255 a.toNat)
  | .sum | .max | .min | .copy => a

def fold (op : VectorOp) (acc value : Word) (first : Bool) : Word :=
  match op with
  | .max => if first then value else if acc ≤ value then value else acc
  | .min => if first then value else if value ≤ acc then value else acc
  | _ => acc + value

end VectorOp

end VectorMachine
