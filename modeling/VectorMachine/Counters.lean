import VectorMachine.Opcode

namespace VectorMachine

structure Counters where
  retired : Nat := 0
  microOps : Nat := 0
  alu : Nat := 0
  memory : Nat := 0
  control : Nat := 0
  stack : Nat := 0
  bridge : Nat := 0
  system : Nat := 0
  branchesTaken : Nat := 0
  faults : Nat := 0
  deriving DecidableEq, Repr

namespace Counters

def countClass (c : Counters) : OpClass → Counters
  | .alu => { c with alu := c.alu + 1 }
  | .memory => { c with memory := c.memory + 1 }
  | .control => { c with control := c.control + 1 }
  | .stack => { c with stack := c.stack + 1 }
  | .bridge => { c with bridge := c.bridge + 1 }
  | .system => { c with system := c.system + 1 }

def retire (c : Counters) (k : OpClass) : Counters :=
  { c.countClass k with retired := c.retired + 1 }

end Counters

structure UnitCounters where
  phases : Nat := 0
  batches : Nat := 0
  operations : Nat := 0
  wordsTransferred : Nat := 0
  deriving DecidableEq, Repr

end VectorMachine
