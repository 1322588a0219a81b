import VectorMachine.Instruction
import VectorMachine.Instruction.Error
import VectorMachine.Text.Pieces
import VectorMachine.Token

namespace VectorMachine

namespace Operand

def read (token : String) : Except DecodeError Operand :=
  let cs := token.toList
  if Token.isRegisterName cs then
    match Register.ofNat? (Nat.ofDigitChars 10 cs.tail 0) with
    | some r => .ok (.register r)
    | none => .error (.invalidRegister token)
  else match Token.integer? cs with
    | some v => .ok (.immediate v)
    | none =>
        if Token.isIdentifier cs then .ok (.label token) else .error (.invalidOperand token)

def readVectorOp (token : String) : Except DecodeError Operand :=
  match VectorOp.ofName? token with
  | some op => .ok (.vectorOp op)
  | none => .error (.unknownVectorOp token)

end Operand

namespace Instruction

def separates (c : Char) : Bool :=
  c == ',' || Text.isBlank c

def tokens (text : String) : List String :=
  (Text.fields separates text.toList).map String.ofList

def readOperands : Opcode → List String → Except DecodeError (List Operand)
  | .gexec, op :: rest => do
      let first ← Operand.readVectorOp op
      let others ← rest.mapM Operand.read
      return first :: others
  | _, args => args.mapM Operand.read

def decode (text : String) : Except DecodeError Instruction :=
  match tokens text with
  | [] => .error .empty
  | mnemonic :: args =>
      match Opcode.ofMnemonic? mnemonic with
      | none => .error (.unknownOpcode mnemonic)
      | some op =>
          if op.arity.accepts args.length then (readOperands op args).map fun os => ⟨op, os⟩
          else .error (.operandCount op args.length)

end Instruction

end VectorMachine
