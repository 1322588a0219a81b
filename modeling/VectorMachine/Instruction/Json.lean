import VectorMachine.Instruction.Error
import VectorMachine.Json.Basic

namespace VectorMachine

def Arity.toJson : Arity → Json
  | .exactly n => .record [("Exact", .nat n)]
  | .between least most => .record [("Between", .array [.nat least, .nat most])]

def Opcode.countJson (op : Opcode) (found : Nat) : Json :=
  .record [
    ("OperandCount", .record [
      ("opcode", .text op.mnemonic),
      ("expected", op.arity.toJson),
      ("found", .nat found)])]

def DecodeError.toJson : DecodeError → Json
  | .empty => .text "Empty"
  | .unknownOpcode token => .record [("UnknownOpcode", .text token)]
  | .operandCount op found => op.countJson found
  | .invalidRegister token => .record [("InvalidRegister", .text token)]
  | .unknownVectorOp token => .record [("UnknownVectorOp", .text token)]
  | .invalidOperand token => .record [("InvalidOperand", .text token)]

end VectorMachine
