import VectorMachine.Text.Decimal

namespace VectorMachine.Token

def isRegisterName : List Char → Bool
  | c :: d :: ds => (c == 'R' || c == 'r') && (d :: ds).all Char.isDigit
  | _ => false

def isIdentifier : List Char → Bool
  | [] => false
  | c :: cs => (c.isAlpha || c == '_') && cs.all fun d => d.isAlphanum || d == '_'

theorem isIdentifier_of_isRegisterName {cs : List Char} (h : isRegisterName cs = true) :
    isIdentifier cs = true := by
  match cs with
  | c :: d :: ds =>
      simp only [isRegisterName, Bool.and_eq_true, Bool.or_eq_true, beq_iff_eq] at h
      have hc : (c.isAlpha || c == '_') = true := by
        rcases h.1 with rfl | rfl <;> decide
      have hall : (d :: ds).all (fun e => e.isAlphanum || e == '_') = true := by
        rw [List.all_eq_true] at h ⊢
        intro e he
        simp [Char.isAlphanum, h.2 e he]
      simp only [isIdentifier, hc, hall, Bool.and_self]

def magnitude? : List Char → Option Nat
  | '0' :: 'x' :: ds => Text.hexadecimal? ds
  | '0' :: 'X' :: ds => Text.hexadecimal? ds
  | ds => Text.decimal? ds

def magnitudeLimit : Nat := Nat.pow 2 63 - 1

def integer? (cs : List Char) : Option Int64 :=
  match cs with
  | '-' :: body =>
      (magnitude? body).bind fun m => if m ≤ magnitudeLimit then some (-(Int64.ofNat m)) else none
  | body =>
      (magnitude? body).bind fun m => if m ≤ magnitudeLimit then some (Int64.ofNat m) else none

end VectorMachine.Token
