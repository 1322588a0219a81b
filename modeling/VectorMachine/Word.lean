namespace VectorMachine

abbrev Word := UInt16

def Word.ofRaw (raw : Int64) : Word :=
  raw.toUInt64.toUInt16

def Word.toRaw (w : Word) : Int64 :=
  w.toUInt64.toInt64

theorem Word.ofRaw_toRaw (w : Word) : Word.ofRaw w.toRaw = w := by
  simp [Word.ofRaw, Word.toRaw]

theorem Word.toRaw_eq_zero_iff {w : Word} : w.toRaw = 0 ↔ w = 0 := by
  constructor
  · intro h
    rw [← Word.ofRaw_toRaw w, h]
    rfl
  · rintro rfl
    rfl

theorem Word.toRaw_eq_ofNat (w : Word) : w.toRaw = Int64.ofNat w.toNat :=
  calc
    w.toRaw = (UInt64.ofNat w.toUInt64.toNat).toInt64 := by
      rw [UInt64.ofNat_toNat]
      rfl
    _ = Int64.ofNat w.toNat := by
      rw [UInt64.toInt64_ofNat', UInt16.toNat_toUInt64]

theorem Word.toInt_toRaw (w : Word) : w.toRaw.toInt = w.toNat := by
  rw [Word.toRaw_eq_ofNat]
  exact Int64.toInt_ofNat_of_lt (Nat.lt_trans w.toNat_lt (by decide))

theorem Word.toInt_toRaw_sub (x y : Word) : (x.toRaw - y.toRaw).toInt = x.toNat - y.toNat := by
  have hx := x.toNat_lt
  have hy := y.toNat_lt
  rw [Int64.toInt_sub, Word.toInt_toRaw, Word.toInt_toRaw]
  exact Int.bmod_eq_of_le (by omega) (by omega)

def Word.signed (w : Word) : Bool :=
  32768 ≤ w.toNat

end VectorMachine
