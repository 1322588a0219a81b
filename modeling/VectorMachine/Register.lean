import VectorMachine.Word
import VectorMachine.Text.Decimal

namespace VectorMachine

abbrev Register := Fin 8

namespace Register

def ofNat? (n : Nat) : Option Register :=
  if h : n < 8 then some ⟨n, h⟩ else none

theorem ofNat?_val (r : Register) : ofNat? r.val = some r := by
  simp [ofNat?, r.isLt]

theorem ofNat?_eq_none_iff {n : Nat} : ofNat? n = none ↔ 8 ≤ n := by
  simp [ofNat?]

def text (r : Register) : String :=
  "R" ++ toString r.val

end Register

abbrev Registers := Vector Word 8

namespace Registers

def zero : Registers := Vector.replicate 8 0

def read (rs : Registers) (r : Register) : Word := rs[r]

def write (rs : Registers) (r : Register) (w : Word) : Registers := rs.set r w

theorem read_write (rs : Registers) (r s : Register) (w : Word) :
    (rs.write r w).read s = if s = r then w else rs.read s := by
  by_cases h : s = r
  · subst h; simp [read, write]
  · have hv : r.val ≠ s.val := fun e => h (Fin.ext e.symm)
    simp [read, write, h, hv]

theorem read_write_self (rs : Registers) (r : Register) (w : Word) :
    (rs.write r w).read r = w := by
  rw [read_write, if_pos rfl]

def changed (before after : Registers) : List Register :=
  (List.finRange 8).filter fun r => before.read r ≠ after.read r

theorem mem_changed {before after : Registers} {r : Register} :
    r ∈ changed before after ↔ before.read r ≠ after.read r := by
  simp [changed, List.mem_finRange]

def field (rs : Registers) (r : Register) : String :=
  r.text ++ "=0x" ++ String.ofList (Text.hexFour (rs.read r).toNat)

def dump (rs : Registers) : String :=
  String.intercalate " " ([0, 1, 2, 3].map rs.field) ++ "\n" ++
    String.intercalate " " ([4, 5, 6, 7].map rs.field) ++ "\n"

end Registers

end VectorMachine
