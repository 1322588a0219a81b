namespace VectorMachine

inductive VectorOp where
  | add
  | sub
  | mul
  | div
  | scale
  | dot
  | sum
  | max
  | min
  | abs
  | sqrt
  | copy
  deriving DecidableEq, Repr

namespace VectorOp

def all : List VectorOp :=
  [.add, .sub, .mul, .div, .scale, .dot, .sum, .max, .min, .abs, .sqrt, .copy]

theorem mem_all (op : VectorOp) : op ∈ all := by
  cases op <;> decide

def name : VectorOp → String
  | .add => "ADD"
  | .sub => "SUB"
  | .mul => "MUL"
  | .div => "DIV"
  | .scale => "SCALE"
  | .dot => "DOT"
  | .sum => "SUM"
  | .max => "MAX"
  | .min => "MIN"
  | .abs => "ABS"
  | .sqrt => "SQRT"
  | .copy => "COPY"

def ofName? (token : String) : Option VectorOp :=
  all.find? fun op => op.name.toList == token.toList.map Char.toUpper

theorem ofName?_name (op : VectorOp) : ofName? op.name = some op := by
  cases op <;> decide +kernel

def reduction : VectorOp → Bool
  | .dot | .sum | .max | .min => true
  | _ => false

def readsDestination : VectorOp → Bool
  | .add | .sub | .mul | .div | .dot => true
  | _ => false

def usesScalar : VectorOp → Bool
  | .scale => true
  | _ => false

end VectorOp

end VectorMachine
