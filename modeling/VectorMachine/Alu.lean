import VectorMachine.AluOp
import VectorMachine.Flags

namespace VectorMachine

namespace AluOp

def arithmetic? (op : AluOp) (a b : Int64) : Option Int64 :=
  match op with
  | .add => some (a + b)
  | .sub => some (a - b)
  | .mul => some (a * b)
  | .div => if b = 0 then none else some (a / b)
  | .mod => if b = 0 then none else some (a % b)
  | .inc => some (a + 1)
  | .dec => some (a - 1)
  | _ => some 0

def logic (op : AluOp) (a b : Int64) : Int64 :=
  match op with
  | .and => a &&& b
  | .or => a ||| b
  | .xor => a ^^^ b
  | .not => a ^^^ 65535
  | _ => 0

def shift (op : AluOp) (a b : Int64) : Int64 :=
  let amount := b &&& 15
  match op with
  | .shl => a <<< amount
  | .shr => a >>> amount
  | _ => 0

def Circuit.eval? (c : Circuit) (op : AluOp) (a b : Int64) : Option Int64 :=
  match c with
  | .arithmetic => op.arithmetic? a b
  | .logic => some (op.logic a b)
  | .shifter => some (op.shift a b)

def raw? (op : AluOp) (a b : Int64) : Option Int64 :=
  op.circuit.eval? op a b

end AluOp

namespace Alu

structure Output where
  raw : Int64
  value : Word
  flags : Flags
  deriving DecidableEq, Repr

def Output.ofRaw (raw : Int64) : Output :=
  ⟨raw, .ofRaw raw, .ofRaw raw⟩

def eval? (op : AluOp) (a b : Word) : Option Output :=
  (op.raw? a.toRaw b.toRaw).map .ofRaw

end Alu

end VectorMachine
