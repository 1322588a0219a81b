import VectorMachine.Instruction.Error

namespace VectorMachine.Assembly

inductive Problem where
  | duplicateLabel (name : String)
  | unknownInstruction (token : String)
  | operandCount (op : Opcode) (found : Nat)
  | invalidRegister (token : String)
  | undefinedLabel (token : String)
  | unknownVectorOp (token : String)
  deriving DecidableEq, Repr

def Problem.message : Problem → String
  | .duplicateLabel name => "duplicate label '" ++ name ++ "' (already defined)"
  | .unknownInstruction token => "unknown instruction '" ++ token ++ "'"
  | .operandCount op found => op.countMessage found
  | .invalidRegister token => "invalid register '" ++ token ++ "'"
  | .undefinedLabel token => "undefined label '" ++ token ++ "'"
  | .unknownVectorOp token => "unknown parallel operation '" ++ token ++ "'"

structure Diagnostic where
  line : Nat
  problem : Problem
  deriving DecidableEq, Repr

def Diagnostic.message (d : Diagnostic) : String :=
  "line " ++ toString d.line ++ ": " ++ d.problem.message

end VectorMachine.Assembly
