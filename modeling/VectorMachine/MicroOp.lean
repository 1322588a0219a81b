import VectorMachine.Cell
import VectorMachine.Opcode
import VectorMachine.Operand

namespace VectorMachine

inductive Stage where
  | fetch
  | decode
  | execute
  | writeback
  deriving DecidableEq, Repr

namespace Stage

def name : Stage → String
  | .fetch => "fetch"
  | .decode => "decode"
  | .execute => "execute"
  | .writeback => "writeback"

def label : Stage → String
  | .fetch => "FETCH"
  | .decode => "DECODE"
  | .execute => "EXECUTE"
  | .writeback => "WRITEBACK"

end Stage

inductive Place where
  | pc
  | sp
  | flags
  | instruction
  | mnemonic (op : Opcode)
  | halted
  | alu
  | operand (o : Option Operand)
  | operands (a b : Option Operand)
  | primary (cell : Option PrimaryCell)
  | unit
  | unitCell (cell : Option UnitCell)
  | unitResult
  | result
  deriving DecidableEq, Repr

namespace Place

def operandText : Option Operand → String
  | none => "?"
  | some o => o.text

def cellText {size : Nat} (memory : String) : Option (Cell size) → String
  | none => memory ++ "[?]"
  | some a => memory ++ "[" ++ toString a.val ++ "]"

def text : Place → String
  | .pc => "PC"
  | .sp => "SP"
  | .flags => "FLAGS"
  | .instruction => "IR"
  | .mnemonic op => op.mnemonic
  | .halted => "HALTED"
  | .alu => "ALU"
  | .operand o => operandText o
  | .operands a b => operandText a ++ ", " ++ operandText b
  | .primary cell => cellText "MEM" cell
  | .unit => "GPU"
  | .unitCell cell => cellText "GPU" cell
  | .unitResult => "GPU.RESULT"
  | .result => "RESULT"

end Place

structure MicroOp where
  stage : Stage
  description : String
  source : Option Place := none
  destination : Option Place := none
  value : Option Int64 := none
  deriving DecidableEq, Repr

namespace MicroOp

def text (m : MicroOp) : String :=
  "[" ++ m.stage.label ++ "] " ++ m.description ++
    match m.value with
    | none => ""
    | some v => " = " ++ toString v.toInt

end MicroOp

end VectorMachine
