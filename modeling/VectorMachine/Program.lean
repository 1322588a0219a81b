import VectorMachine.NameMap

namespace VectorMachine

structure Program where
  instructions : Array String
  labels : NameMap Nat
  lines : Array Nat
  deriving DecidableEq, Repr

namespace Program

def empty : Program := ⟨#[], .empty, #[]⟩

instance : Inhabited Program := ⟨empty⟩

def fitLines (count : Nat) (lines : List Nat) : List Nat :=
  lines.take count ++ (List.range' (min lines.length count) (count - lines.length)).map (· + 1)

theorem length_fitLines (count : Nat) (lines : List Nat) :
    (fitLines count lines).length = count := by
  simp [fitLines]; omega

def ofParts (instructions : List String) (labels : NameMap Nat) (lines : List Nat) : Program where
  instructions := instructions.toArray
  labels := labels
  lines := (fitLines instructions.length lines).toArray

theorem size_lines_ofParts (instructions : List String) (labels : NameMap Nat) (lines : List Nat) :
    (ofParts instructions labels lines).lines.size =
      (ofParts instructions labels lines).instructions.size := by
  simp [ofParts, length_fitLines]

def ofInstructions (instructions : List String) : Program :=
  ofParts instructions .empty []

def size (p : Program) : Nat := p.instructions.size

def instruction? (p : Program) (n : Nat) : Option String := p.instructions[n]?

def line? (p : Program) (n : Nat) : Option Nat := p.lines[n]?

def label? (p : Program) (name : String) : Option Nat := p.labels.find? name

end Program

end VectorMachine
