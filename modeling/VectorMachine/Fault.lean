import VectorMachine.Instruction.Error
import VectorMachine.Instruction
import VectorMachine.VectorUnit.Basic

namespace VectorMachine

inductive Fault where
  | undecodable (e : DecodeError)
  | notARegister (o : Operand)
  | noValue (o : Operand)
  | missingOperand (i : Instruction) (position : Nat)
  | unknownLabel (name : String)
  | divisionByZero
  | noUnit (op : Opcode)
  | refused (r : Refusal)
  deriving DecidableEq, Repr

namespace Fault

def missingText (i : Instruction) (position : Nat) : String :=
  i.text ++ ": missing operand " ++ toString (position + 1)

def message : Fault → String
  | .undecodable e => e.message
  | .notARegister o => "invalid register reference '" ++ o.text ++ "'"
  | .noValue o => "invalid operand '" ++ o.text ++ "'"
  | .missingOperand i position => "invalid operand '" ++ missingText i position ++ "'"
  | .unknownLabel name => "invalid operand '" ++ name ++ "': no such label"
  | .divisionByZero => "division by zero"
  | .noUnit op => op.mnemonic ++ " requires an attached compute unit"
  | .refused r => r.message

end Fault

end VectorMachine
