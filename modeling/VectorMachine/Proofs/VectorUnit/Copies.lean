import Mathlib.Data.Nat.ModEq
import Mathlib.Order.Bounds.Defs
import VectorMachine.Proofs.VectorUnit.Interference

namespace VectorMachine.VectorUnit

theorem setIfInBounds_eq_set {size i : Nat} (memory : Vector Word size) (w : Word) (h : i < size) :
    memory.setIfInBounds i w = memory.set i w h := by
  apply Vector.ext
  intro k hk
  rw [Vector.getElem_setIfInBounds, Vector.getElem_set]

theorem get_eq_of_getElem? {size : Nat} {m n : Vector Word size} {c : Fin size}
    (h : m[c.val]? = n[c.val]?) : m.get c = n.get c := by
  rw [Vector.getElem?_eq_getElem c.isLt, Vector.getElem?_eq_getElem c.isLt] at h
  exact Option.some.inj h

theorem eq_of_getElem? {size : Nat} {m n : Vector Word size} (h : ∀ i : Nat, m[i]? = n[i]?) :
    m = n := by
  apply Vector.ext
  intro i hi
  exact get_eq_of_getElem? (c := ⟨i, hi⟩) (h i)

section Row

variable {size len i c : Nat} {memory : Vector Word size} {place : Nat → Nat} {word : Nat → Word}

def writeRow (memory : Vector Word size) (place : Nat → Nat) (word : Nat → Word) (len : Nat) :
    Vector Word size :=
  Nat.fold len (fun k _ m => m.setIfInBounds (place k) (word k)) memory

theorem writeRow_succ : writeRow memory place word (len + 1) =
    (writeRow memory place word len).setIfInBounds (place len) (word len) :=
  Nat.fold_succ ..

theorem getElem?_writeRow_of_ne (h : ∀ k, k < len → place k ≠ c) :
    (writeRow memory place word len)[c]? = memory[c]? := by
  induction len with
  | zero => rfl
  | succ len ih =>
      rw [writeRow_succ, Vector.getElem?_setIfInBounds_ne (h len (Nat.lt_succ_self len))]
      exact ih fun k hk => h k (Nat.lt_succ_of_lt hk)

theorem getElem?_writeRow_of_isGreatest (hc : c < size)
    (h : IsGreatest {k | k < len ∧ place k = c} i) :
    (writeRow memory place word len)[c]? = some (word i) := by
  induction len with
  | zero => exact absurd h.1.1 (Nat.not_lt_zero i)
  | succ len ih =>
      rw [writeRow_succ]
      by_cases hlast : place len = c
      · have hle : len ≤ i := h.2 ⟨Nat.lt_succ_self len, hlast⟩
        obtain rfl : i = len := Nat.le_antisymm (Nat.lt_succ_iff.1 h.1.1) hle
        subst hlast
        exact Vector.getElem?_setIfInBounds_self_of_lt hc
      · have hne : i ≠ len := fun he => hlast (he ▸ h.1.2)
        have hlt : i < len := Nat.lt_of_le_of_ne (Nat.lt_succ_iff.1 h.1.1) hne
        rw [Vector.getElem?_setIfInBounds_ne hlast]
        exact ih ⟨⟨hlt, h.1.2⟩, fun k hk => h.2 ⟨Nat.lt_succ_of_lt hk.1, hk.2⟩⟩

end Row

def LastAt (size first len cell i : Nat) : Prop :=
  IsGreatest {k | k < len ∧ (first + k) % size = cell} i

def Misses (size first len cell : Nat) : Prop :=
  ∀ k, k < len → (first + k) % size ≠ cell

theorem lastAt_of_le {size first len i : Nat} (hlen : len ≤ size) (hi : i < len) :
    LastAt size first len ((first + i) % size) i := by
  refine ⟨⟨hi, rfl⟩, ?_⟩
  rintro k ⟨hk, hsame⟩
  have hcongr : k ≡ i [MOD size] := Nat.ModEq.add_left_cancel' first hsame
  have hki : k = i :=
    hcongr.eq_of_lt_of_lt (Nat.lt_of_lt_of_le hk hlen) (Nat.lt_of_lt_of_le hi hlen)
  exact Nat.le_of_eq hki

section Copy

variable {size : Nat} (memory : Vector Word 128) (primary : Vector Word size)

theorem copyIn_eq_writeRow (src : PrimaryCell) (dst : UnitCell) (len : Nat) :
    copyIn memory primary src dst len =
      writeRow memory (fun k => (dst.val + k) % 128)
        (fun k => primary[(src.val + k) % 256]?.getD 0) len := by
  induction len with
  | zero => rfl
  | succ len ih =>
      rw [copyIn_succ, writeRow_succ, ih, put, ← setIfInBounds_eq_set, Cell.val_offset,
        Cell.val_offset]

theorem copyOut_eq_writeRow (src : UnitCell) (dst : PrimaryCell) (len : Nat) :
    copyOut memory primary src dst len =
      writeRow primary (fun k => (dst.val + k) % 256) (fun k => memory.get (src.offset k)) len := by
  simp only [copyOut, writeRow, Cell.val_offset]

variable {memory primary}

theorem getElem?_copyIn_of_lastAt {src : PrimaryCell} {dst : UnitCell} {len c i : Nat}
    (hc : c < 128) (h : LastAt 128 dst.val len c i) :
    (copyIn memory primary src dst len)[c]? = some (primary[(src.val + i) % 256]?.getD 0) := by
  rw [copyIn_eq_writeRow]
  exact getElem?_writeRow_of_isGreatest hc h

theorem getElem?_copyIn_of_misses {src : PrimaryCell} {dst : UnitCell} {len c : Nat}
    (h : Misses 128 dst.val len c) : (copyIn memory primary src dst len)[c]? = memory[c]? := by
  rw [copyIn_eq_writeRow]
  exact getElem?_writeRow_of_ne h

theorem getElem?_copyOut_of_lastAt {src : UnitCell} {dst : PrimaryCell} {len p i : Nat}
    (hp : p < size) (h : LastAt 256 dst.val len p i) :
    (copyOut memory primary src dst len)[p]? = memory[(src.val + i) % 128]? := by
  rw [copyOut_eq_writeRow, getElem?_writeRow_of_isGreatest hp h]
  have hcell : (src.val + i) % 128 < 128 := Nat.mod_lt _ (by decide)
  rw [Vector.getElem?_eq_getElem hcell]
  simp [Vector.get]

theorem getElem?_copyOut_of_misses {src : UnitCell} {dst : PrimaryCell} {len p : Nat}
    (h : Misses 256 dst.val len p) : (copyOut memory primary src dst len)[p]? = primary[p]? := by
  rw [copyOut_eq_writeRow]
  exact getElem?_writeRow_of_ne h

theorem misses_of_offset_ne {n len : Nat} [MemorySize n] {first c : Cell n}
    (h : ∀ k, k < len → first.offset k ≠ c) : Misses n first.val len c.val := by
  intro k hk he
  apply h k hk
  rw [Fin.ext_iff, Cell.val_offset]
  exact he

theorem get_copyIn_of_ne {src : PrimaryCell} {dst c : UnitCell} {len : Nat}
    (h : ∀ k, k < len → dst.offset k ≠ c) :
    (copyIn memory primary src dst len).get c = memory.get c :=
  get_eq_of_getElem? (getElem?_copyIn_of_misses (misses_of_offset_ne h))

theorem get_copyOut_of_ne {primary : Vector Word 256} {src : UnitCell} {dst c : PrimaryCell}
    {len : Nat} (h : ∀ k, k < len → dst.offset k ≠ c) :
    (copyOut memory primary src dst len).get c = primary.get c :=
  get_eq_of_getElem? (getElem?_copyOut_of_misses (misses_of_offset_ne h))

end Copy

section RoundTrip

variable {memory : Vector Word 128} {primary : Vector Word 256} {len : Nat}

theorem copyOut_copyIn (src : PrimaryCell) (dst : UnitCell) (h : len ≤ 128) :
    copyOut (copyIn memory primary src dst len) primary dst src len = primary := by
  have hlong : len ≤ 256 := Nat.le_trans h (by decide)
  apply eq_of_getElem?
  intro p
  by_cases hp : Misses 256 src.val len p
  · exact getElem?_copyOut_of_misses hp
  · simp only [Misses, not_forall, ne_eq, not_not] at hp
    obtain ⟨k, hk, rfl⟩ := hp
    have hcell : (src.val + k) % 256 < 256 := Nat.mod_lt _ (by decide)
    rw [getElem?_copyOut_of_lastAt hcell (lastAt_of_le hlong hk),
      getElem?_copyIn_of_lastAt (Nat.mod_lt _ (by decide)) (lastAt_of_le h hk),
      Vector.getElem?_eq_getElem hcell]
    rfl

-- With one element more, the first cell comes back with the word of the last.
example :
    let primary : Vector Word 256 := Vector.ofFn fun c => UInt16.ofNat c.val
    let copied := copyIn (Vector.replicate 128 0) primary (Cell.ofNat 0) (Cell.ofNat 0) 129
    (copyOut copied primary (Cell.ofNat 0) (Cell.ofNat 0) 129)[0]? = some 128 := by
  decide +kernel

theorem copyIn_copyOut (src : UnitCell) (dst : PrimaryCell) (h : len ≤ 128) :
    copyIn memory (copyOut memory primary src dst len) dst src len = memory := by
  have hlong : len ≤ 256 := Nat.le_trans h (by decide)
  apply eq_of_getElem?
  intro c
  by_cases hc : Misses 128 src.val len c
  · exact getElem?_copyIn_of_misses hc
  · simp only [Misses, not_forall, ne_eq, not_not] at hc
    obtain ⟨k, hk, rfl⟩ := hc
    have hcell : (src.val + k) % 128 < 128 := Nat.mod_lt _ (by decide)
    rw [getElem?_copyIn_of_lastAt hcell (lastAt_of_le h hk),
      getElem?_copyOut_of_lastAt (Nat.mod_lt _ (by decide)) (lastAt_of_le hlong hk),
      Vector.getElem?_eq_getElem hcell]
    rfl

end RoundTrip

structure Loaded {size : Nat} (u v : VectorUnit) (primary : Vector Word size) (src : PrimaryCell)
    (dst : UnitCell) (len : Nat) : Prop where
  last : ∀ c i, c < 128 → LastAt 128 dst.val len c i →
    v.memory[c]? = some (primary[(src.val + i) % 256]?.getD 0)
  missed : ∀ c, Misses 128 dst.val len c → v.memory[c]? = u.memory[c]?
  unit : v = { u with
    memory := v.memory
    counters := { u.counters with wordsTransferred := u.counters.wordsTransferred + len } }

structure Stored {size : Nat} (u v : VectorUnit) (before after : Vector Word size)
    (src : UnitCell) (dst : PrimaryCell) (len : Nat) : Prop where
  last : ∀ p i, p < size → LastAt 256 dst.val len p i →
    after[p]? = u.memory[(src.val + i) % 128]?
  missed : ∀ p, Misses 256 dst.val len p → after[p]? = before[p]?
  unit : v = { u with
    counters := { u.counters with wordsTransferred := u.counters.wordsTransferred + len } }

theorem transfers_keep_the_last_word {size : Nat} (u : VectorUnit) (primary : Vector Word size) :
    (∀ src dst len, Loaded u (u.loadBlock primary src dst len).1 primary src dst len) ∧
    (∀ src dst len, Stored u (u.storeBlock primary src dst len).2.1 primary
      (u.storeBlock primary src dst len).1 src dst len) ∧
    ∀ (memory : Vector Word 256) (len : Nat), len ≤ 128 →
      (∀ src dst, ((u.loadBlock memory src dst len).1.storeBlock memory dst src len).1 = memory) ∧
      ∀ src dst, ((u.storeBlock memory src dst len).2.1.loadBlock
        (u.storeBlock memory src dst len).1 dst src len).1.memory = u.memory := by
  refine ⟨?_, ?_, ?_⟩
  · intro src dst len
    constructor
    · exact fun c i hc hi => getElem?_copyIn_of_lastAt hc hi
    · exact fun c hc => getElem?_copyIn_of_misses hc
    · rfl
  · intro src dst len
    constructor
    · exact fun p i hp hi => getElem?_copyOut_of_lastAt hp hi
    · exact fun p hp => getElem?_copyOut_of_misses hp
    · rfl
  · intro memory len hlen
    exact ⟨fun src dst => copyOut_copyIn src dst hlen, fun src dst => copyIn_copyOut src dst hlen⟩

def staircase : Vector Word 256 := Vector.ofFn fun c => UInt16.ofNat c.val

theorem transfers_keep_the_last_word_wrapping :
    LastAt 128 126 200 0 130 ∧
    ((new 1).loadBlock staircase (Cell.ofNat 254) (Cell.ofNat 126) 200).1.memory[0]? = some 128 ∧
    128 ≤ 128 ∧
    (((new 1).loadBlock staircase (Cell.ofNat 254) (Cell.ofNat 126) 128).1.storeBlock staircase
      (Cell.ofNat 126) (Cell.ofNat 254) 128).1 = staircase := by
  have hlast : LastAt 128 126 200 0 130 := by
    refine ⟨⟨by decide, by decide⟩, ?_⟩
    rintro k ⟨hk, hcell⟩
    omega
  obtain ⟨hload, -, hback⟩ := transfers_keep_the_last_word (new 1) staircase
  obtain ⟨hthere, -⟩ := hback staircase 128 (Nat.le_refl 128)
  refine ⟨hlast, ?_, Nat.le_refl 128, hthere (Cell.ofNat 254) (Cell.ofNat 126)⟩
  have hword : staircase[(254 + 130) % 256]? = some 128 := by decide +kernel
  have hcell := (hload (Cell.ofNat 254) (Cell.ofNat 126) 200).last 0 130 (by decide) hlast
  exact hcell.trans (congrArg (fun w? => some (w?.getD 0)) hword)

end VectorMachine.VectorUnit
