namespace VectorMachine

inductive AluOp where
  | add
  | sub
  | mul
  | div
  | mod
  | and
  | or
  | xor
  | shl
  | shr
  | not
  | inc
  | dec
  deriving DecidableEq, Repr

namespace AluOp

def mnemonic : AluOp → String
  | .add => "ADD"
  | .sub => "SUB"
  | .mul => "MUL"
  | .div => "DIV"
  | .mod => "MOD"
  | .and => "AND"
  | .or => "OR"
  | .xor => "XOR"
  | .shl => "SHL"
  | .shr => "SHR"
  | .not => "NOT"
  | .inc => "INC"
  | .dec => "DEC"

def unary : AluOp → Bool
  | .not | .inc | .dec => true
  | _ => false

def symbol : AluOp → String
  | .add | .inc => "+"
  | .sub | .dec => "-"
  | .mul => "*"
  | .div => "/"
  | .mod => "%"
  | .and => "&"
  | .or => "|"
  | .xor => "^"
  | .shl => "<<"
  | .shr => ">>"
  | .not => "~"

inductive Circuit where
  | arithmetic
  | logic
  | shifter
  deriving DecidableEq, Repr

def circuit : AluOp → Circuit
  | .and | .or | .xor | .not => .logic
  | .shl | .shr => .shifter
  | _ => .arithmetic

end AluOp

end VectorMachine
