import VectorMachine.Register
import VectorMachine.VectorOp

namespace VectorMachine

inductive Operand where
  | register (r : Register)
  | immediate (v : Int64)
  | label (name : String)
  | vectorOp (op : VectorOp)
  deriving DecidableEq, Repr

namespace Operand

def text : Operand → String
  | .register r => r.text
  | .immediate v => toString v.toInt
  | .label name => name
  | .vectorOp op => op.name

end Operand

end VectorMachine
