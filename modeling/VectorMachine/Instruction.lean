import VectorMachine.Opcode
import VectorMachine.Operand

namespace VectorMachine

structure Instruction where
  opcode : Opcode
  operands : List Operand
  deriving DecidableEq, Repr

namespace Instruction

def text (i : Instruction) : String :=
  match i.operands with
  | [] => i.opcode.mnemonic
  | operands => i.opcode.mnemonic ++ " " ++ String.intercalate ", " (operands.map Operand.text)

def operand? (i : Instruction) (n : Nat) : Option Operand :=
  i.operands[n]?

end Instruction

end VectorMachine
