namespace VectorMachine

abbrev Cell (size : Nat) := Fin size

class MemorySize (size : Nat) : Prop where
  pos : 0 < size

instance primarySize : MemorySize 256 := ⟨by decide⟩

instance unitSize : MemorySize 128 := ⟨by decide⟩

namespace Cell

variable {size : Nat} [MemorySize size]

def ofNat (raw : Nat) : Cell size :=
  ⟨raw % size, Nat.mod_lt raw MemorySize.pos⟩

@[simp]
theorem val_ofNat (raw : Nat) : (ofNat raw : Cell size).val = raw % size := rfl

def offset (a : Cell size) (n : Nat) : Cell size :=
  ofNat (a.val + n % size)

@[simp]
theorem val_offset (a : Cell size) (n : Nat) : (a.offset n).val = (a.val + n) % size := by
  simp [offset]

def pred (a : Cell size) : Cell size :=
  ofNat (a.val + size - 1)

@[simp]
theorem val_pred (a : Cell size) : a.pred.val = (a.val + size - 1) % size := rfl

end Cell

abbrev PrimaryCell := Cell 256

abbrev UnitCell := Cell 128

def stackTop : PrimaryCell := 255

end VectorMachine
