import VectorMachine.VectorUnit.Element

namespace VectorMachine

structure Lane where
  busy : Bool := false
  opcode : Option VectorOp := none
  inputA : Word := 0
  inputB : Word := 0
  output : Word := 0
  deriving DecidableEq, Repr

namespace Lane

def idle : Lane := {}

def clear (_ : Lane) : Lane := {}

def decode (op : VectorOp) (l : Lane) : Lane :=
  { l with busy := true, opcode := some op }

def fetch (a b : Word) (l : Lane) : Lane :=
  { l with inputA := a, inputB := b }

def execute (op : VectorOp) (scalar : Option Word) (l : Lane) : Lane :=
  { l with output := op.element l.inputA l.inputB scalar }

def onFirst (count : Nat) (f : Nat → Lane → Lane) (lanes : List Lane) : List Lane :=
  lanes.mapIdx fun i l => if i < count then f i l else l

theorem length_onFirst (count : Nat) (f : Nat → Lane → Lane) (lanes : List Lane) :
    (onFirst count f lanes).length = lanes.length := by
  simp [onFirst]

end Lane

end VectorMachine
