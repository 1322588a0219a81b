import Mathlib.Data.Nat.ModEq
import Mathlib.Data.Set.Function
import VectorMachine.Cell

namespace VectorMachine.Cell

section Laws

variable {size : Nat} [MemorySize size] (a : Cell size)

@[simp]
theorem offset_zero : a.offset 0 = a := by
  apply Fin.ext
  rw [val_offset, Nat.add_zero, Nat.mod_eq_of_lt a.isLt]

theorem offset_offset (m n : Nat) : (a.offset m).offset n = a.offset (m + n) := by
  apply Fin.ext
  rw [val_offset, val_offset, val_offset, Nat.mod_add_mod, Nat.add_assoc]

theorem offset_eq_offset_iff {m n : Nat} : a.offset m = a.offset n ↔ m ≡ n [MOD size] := by
  rw [Fin.ext_iff, val_offset, val_offset]
  exact ⟨Nat.ModEq.add_left_cancel' a.val, Nat.ModEq.add_left a.val⟩

theorem offset_ne {m n : Nat} (h : m < n) (hn : n < m + size) : a.offset m ≠ a.offset n := by
  obtain ⟨d, rfl⟩ := Nat.exists_eq_add_of_lt h
  rw [Nat.add_assoc] at hn ⊢
  intro he
  have hmod : 0 ≡ d + 1 [MOD size] :=
    Nat.ModEq.add_left_cancel' m ((offset_eq_offset_iff a).1 he)
  have hzero := hmod.eq_of_lt_of_lt MemorySize.pos (Nat.lt_of_add_lt_add_left hn)
  exact absurd hzero.symm (Nat.succ_ne_zero d)

theorem offset_mod {k : Nat} (h : size ∣ k) (n : Nat) : a.offset (n % k) = a.offset n :=
  (offset_eq_offset_iff a).2 ((Nat.mod_modEq n k).of_dvd h)

theorem pred_eq_offset : a.pred = a.offset (size - 1) := by
  apply Fin.ext
  rw [val_pred, val_offset, Nat.add_sub_assoc MemorySize.pos]

@[simp]
theorem offset_size : a.offset size = a := by
  rw [← offset_mod a (Nat.dvd_refl size), Nat.mod_self, offset_zero]

@[simp]
theorem pred_offset_one : a.pred.offset 1 = a := by
  rw [pred_eq_offset, offset_offset, Nat.sub_add_cancel MemorySize.pos, offset_size]

@[simp]
theorem offset_one_pred : (a.offset 1).pred = a := by
  rw [pred_eq_offset, offset_offset, Nat.add_sub_cancel' MemorySize.pos, offset_size]

end Laws

section Numbers

def sum? (x y : UInt64) : Option UInt64 :=
  if BitVec.uaddOverflow x.toBitVec y.toBitVec then none else some (x + y)

def difference? (x y : UInt64) : Option UInt64 :=
  if BitVec.usubOverflow x.toBitVec y.toBitVec then none else some (x - y)

def reduce (size : Nat) (raw : UInt64) : UInt64 := raw % UInt64.ofNat size

def further? (size : Nat) (x n : UInt64) : Option UInt64 :=
  (sum? x (reduce size n)).map (reduce size)

def below? (size : Nat) (x : UInt64) : Option UInt64 :=
  (sum? x (UInt64.ofNat size)).bind fun above => (difference? above 1).map (reduce size)

def number {size : Nat} (a : Cell size) : UInt64 := UInt64.ofNat a.val

variable {x y : UInt64}

theorem exists_sum (h : x.toNat + y.toNat < UInt64.size) :
    ∃ s, sum? x y = some s ∧ s.toNat = x.toNat + y.toNat := by
  have hfits : ¬ BitVec.uaddOverflow x.toBitVec y.toBitVec = true := by
    simpa [BitVec.uaddOverflow] using h
  exact ⟨x + y, if_neg hfits, BitVec.toNat_add_of_not_uaddOverflow hfits⟩

theorem exists_difference (h : y.toNat ≤ x.toNat) :
    ∃ d, difference? x y = some d ∧ d.toNat = x.toNat - y.toNat := by
  have hfits : ¬ BitVec.usubOverflow x.toBitVec y.toBitVec = true := by
    simpa [BitVec.usubOverflow] using h
  exact ⟨x - y, if_neg hfits, BitVec.toNat_sub_of_not_usubOverflow hfits⟩

variable {size : Nat}

theorem toNat_number (h : size < UInt64.size) (a : Cell size) : a.number.toNat = a.val :=
  UInt64.toNat_ofNat_of_lt' (Nat.lt_trans a.isLt h)

theorem toNat_reduce (h : size < UInt64.size) (raw : UInt64) :
    (reduce size raw).toNat = raw.toNat % size := by
  rw [reduce, UInt64.toNat_mod, UInt64.toNat_ofNat_of_lt' h]

variable [MemorySize size]

theorem size_lt (h : 2 * size ≤ UInt64.size) : size < UInt64.size := by
  have hpos : 0 < size := MemorySize.pos
  omega

theorem reduce_eq_number (h : size < UInt64.size) {k : Nat} (hx : x.toNat = k) :
    reduce size x = (ofNat k : Cell size).number := by
  apply UInt64.toNat_inj.1
  rw [toNat_reduce h, toNat_number h, val_ofNat, hx]

theorem further_number (h : 2 * size ≤ UInt64.size) (a : Cell size) (n : UInt64) :
    further? size a.number n = some (a.offset n.toNat).number := by
  have ha := toNat_number (size_lt h) a
  have hn := toNat_reduce (size_lt h) n
  -- Both are below the size, so their sum is below its double.
  have hcell : a.val < size := a.isLt
  have hdistance : n.toNat % size < size := Nat.mod_lt _ MemorySize.pos
  obtain ⟨s, hs, hsum⟩ := exists_sum (x := a.number) (y := reduce size n) (by omega)
  rw [ha, hn] at hsum
  rw [further?, hs, Option.map_some, reduce_eq_number (size_lt h) hsum]
  rfl

-- The distance is reduced first: without that, 64 bits do not hold the sum.
example : sum? (number (255 : PrimaryCell)) (-1) = none ∧
    further? 256 (number (255 : PrimaryCell)) (-1) = some 254 := by decide

theorem below_number (h : 2 * size ≤ UInt64.size) (a : Cell size) :
    below? size a.number = some a.pred.number := by
  have ha := toNat_number (size_lt h) a
  have hsize : (UInt64.ofNat size).toNat = size := UInt64.toNat_ofNat_of_lt' (size_lt h)
  have hcell : a.val < size := a.isLt
  obtain ⟨s, hs, hsum⟩ := exists_sum (x := a.number) (y := UInt64.ofNat size) (by omega)
  rw [ha, hsize] at hsum
  have hone : (1 : UInt64).toNat ≤ s.toNat := by
    change 1 ≤ s.toNat
    omega
  obtain ⟨d, hd, hdifference⟩ := exists_difference hone
  rw [hsum] at hdifference
  rw [below?, hs, Option.bind_some, hd, Option.map_some,
    reduce_eq_number (size_lt h) hdifference]
  rfl

end Numbers

def consecutive (first : UInt64) (count : Nat) : Set UInt64 :=
  (fun d => first + d) '' {d | d.toNat < count}

structure ActsAdditively (size : Nat) [MemorySize size] : Prop where
  numbered : ∀ a : Cell size, a.number.toNat = a.val ∧ a.val < size
  reduced : ∀ raw, reduce size raw = (ofNat raw.toNat : Cell size).number
  moved : ∀ (a : Cell size) n, further? size a.number n = some (a.offset n.toNat).number
  val_ofNat : ∀ raw : UInt64, (ofNat raw.toNat : Cell size).val = raw.toNat % size
  val_offset : ∀ (a : Cell size) (n : UInt64), (a.offset n.toNat).val = (a.val + n.toNat) % size
  zero : ∀ a : Cell size, a.offset 0 = a
  add : ∀ (a : Cell size) (m n : UInt64),
    (a.offset m.toNat).offset n.toNat = a.offset (m + n).toNat
  injective : ∀ (a : Cell size) (first : UInt64) count, count ≤ size →
    Set.InjOn (fun n : UInt64 => a.offset n.toNat) (consecutive first count)

section Action

variable {size : Nat} [MemorySize size]

theorem offset_toNat_add (h : size ∣ UInt64.size) (a : Cell size) (m n : UInt64) :
    (a.offset m.toNat).offset n.toNat = a.offset (m + n).toNat := by
  rw [offset_offset, UInt64.toNat_add]
  exact (offset_mod a h _).symm

theorem injOn_consecutive (h : size ∣ UInt64.size) (a : Cell size) (first : UInt64) {count : Nat}
    (hcount : count ≤ size) :
    Set.InjOn (fun n : UInt64 => a.offset n.toNat) (consecutive first count) := by
  rintro _ ⟨d, hd, rfl⟩ _ ⟨e, he, rfl⟩ hsame
  have hsplit : (a.offset first.toNat).offset d.toNat = (a.offset first.toNat).offset e.toNat := by
    rw [offset_toNat_add h, offset_toNat_add h]
    exact hsame
  have hmod := (offset_eq_offset_iff _).1 hsplit
  have hde : d.toNat = e.toNat :=
    hmod.eq_of_lt_of_lt (Nat.lt_of_lt_of_le hd hcount) (Nat.lt_of_lt_of_le he hcount)
  rw [UInt64.toNat_inj.1 hde]

theorem actsAdditively (hdvd : size ∣ UInt64.size) (hroom : 2 * size ≤ UInt64.size) :
    ActsAdditively size := by
  constructor
  · exact fun a => ⟨toNat_number (size_lt hroom) a, a.isLt⟩
  · exact fun raw => reduce_eq_number (size_lt hroom) rfl
  · exact further_number hroom
  · exact fun raw => rfl
  · exact fun a n => Cell.val_offset a n.toNat
  · exact offset_zero
  · exact offset_toNat_add hdvd
  · exact fun a first count => injOn_consecutive hdvd a first

end Action

theorem addresses_act_additively :
    ActsAdditively 256 ∧ ActsAdditively 128 ∧
    ∀ a : PrimaryCell, below? 256 a.number = some a.pred.number ∧
      a.pred.offset 1 = a ∧ (a.offset 1).pred = a := by
  refine ⟨actsAdditively (by decide) (by decide), actsAdditively (by decide) (by decide), ?_⟩
  intro a
  exact ⟨below_number (by decide) a, pred_offset_one a, offset_one_pred a⟩

end VectorMachine.Cell
