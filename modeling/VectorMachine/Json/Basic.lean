import VectorMachine.Text.Decimal

namespace VectorMachine

inductive Json where
  | null
  | bool (b : Bool)
  | number (lexeme : String)
  | string (text : Option String)
  | array (items : List Json)
  | object (members : List (Option String × Json))
  deriving Repr

namespace Json

instance : Inhabited Json := ⟨.null⟩

def nat (n : Nat) : Json := .number (toString n)

def int (i : Int) : Json := .number (toString i)

def text (s : String) : Json := .string (some s)

def record (members : List (String × Json)) : Json :=
  .object (members.map fun m => (some m.1, m.2))

def option {α : Type} (f : α → Json) : Option α → Json
  | none => .null
  | some a => f a

def list {α : Type} (f : α → Json) (xs : List α) : Json := .array (xs.map f)

def natural? : Json → Option Nat
  | .number lexeme => (Text.decimal? lexeme.toList).filter fun n => n < UInt64.size
  | _ => none

theorem natural?_nat {n : Nat} (h : n < UInt64.size) : (nat n).natural? = some n := by
  simpa [natural?, nat, Text.decimal?_toDigits] using h

def bool? : Json → Option Bool
  | .bool b => some b
  | _ => none

def text? : Json → Option String
  | .string s => s
  | _ => none

def items? : Json → Option (List Json)
  | .array items => some items
  | _ => none

end Json

end VectorMachine
