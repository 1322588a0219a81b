import VectorMachine.Opcode

namespace VectorMachine

def Opcode.countMessage (op : Opcode) (found : Nat) : String :=
  op.mnemonic ++ " expects " ++ op.arity.text ++ " operand(s), got " ++ toString found

inductive DecodeError where
  | empty
  | unknownOpcode (token : String)
  | operandCount (op : Opcode) (found : Nat)
  | invalidRegister (token : String)
  | unknownVectorOp (token : String)
  | invalidOperand (token : String)
  deriving DecidableEq, Repr

def DecodeError.message : DecodeError → String
  | .empty => "empty instruction"
  | .unknownOpcode token => "unknown instruction '" ++ token ++ "'"
  | .operandCount op found => op.countMessage found
  | .invalidRegister token => "invalid register '" ++ token ++ "'"
  | .unknownVectorOp token => "unknown parallel operation '" ++ token ++ "'"
  | .invalidOperand token => "invalid operand '" ++ token ++ "'"

end VectorMachine
