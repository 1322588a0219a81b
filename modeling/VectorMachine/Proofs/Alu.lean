import Mathlib.Algebra.Order.Ring.Int
import VectorMachine.Processor.Action

namespace VectorMachine

namespace AluOp

def Bitwise (f : Bool → Bool → Bool) (a b : Nat) (r : Int) : Prop :=
  ∃ n : Nat, r = n ∧ ∀ k, n.testBit k = f (a.testBit k) (b.testBit k)

def Computes (a b : Nat) (r : Int) : AluOp → Prop
  | .add => r = a + b
  | .sub => r = a - b
  | .mul => r = a * b
  | .div => ∃ rest : Int, a = r * b + rest ∧ 0 ≤ rest ∧ rest < b
  | .mod => ∃ quotient : Int, a = quotient * b + r ∧ 0 ≤ r ∧ r < b
  | .and => Bitwise Bool.and a b r
  | .or => Bitwise Bool.or a b r
  | .xor => Bitwise Bool.xor a b r
  | .shl => r = a * 2 ^ (b % 16)
  | .shr => r = a / 2 ^ (b % 16)
  | .not => r = 65535 - a
  | .inc => r = a + 1
  | .dec => r = a - 1

def keepsWords : AluOp → Bool
  | .div | .mod | .and | .or | .xor | .not | .shr => true
  | _ => false

structure Exact (op : AluOp) (a b : Word) (out : Alu.Output) : Prop where
  raw : op.Computes a.toNat b.toNat out.raw.toInt
  least : -65535 ≤ out.raw.toInt
  most : out.raw.toInt ≤ 65535 ^ 2
  value : (out.value.toNat : Int) = out.raw.toInt % 2 ^ 16
  zero : out.flags.zero = true ↔ out.raw.toInt = 0
  carry : out.flags.carry = true ↔ out.raw.toInt ≠ out.value.toNat
  negative : out.flags.negative = true ↔ out.raw.toInt < 0 ∨ 32768 ≤ out.value.toNat
  no_carry : op.keepsWords = true → out.flags.carry = false

end AluOp

namespace Flags

variable (raw : Int64)

theorem zero_ofRaw : (ofRaw raw).zero = true ↔ raw.toInt = 0 := by
  rw [show (ofRaw raw).zero = (raw == 0) from rfl, beq_iff_eq, ← Int64.toInt_inj]
  rfl

theorem negative_ofRaw : (ofRaw raw).negative = true ↔
    raw.toInt < 0 ∨ 32768 ≤ (Word.ofRaw raw).toNat := by
  simp only [ofRaw, Word.signed, Bool.or_eq_true, decide_eq_true_eq, Int64.lt_iff_toInt_lt]
  rfl

theorem carry_ofRaw : (ofRaw raw).carry = true ↔ raw.toInt < 0 ∨ 65535 < raw.toInt := by
  simp only [ofRaw, Bool.or_eq_true, decide_eq_true_eq, Int64.lt_iff_toInt_lt]
  rfl

end Flags

namespace AluOp

section Bounds

variable {op : AluOp} {a b : Nat} {r : Int}

theorem Bitwise.word {f : Bool → Bool → Bool} (h : Bitwise f a b r) (hf : f false false = false)
    (ha : a < 2 ^ 16) (hb : b < 2 ^ 16) : 0 ≤ r ∧ r ≤ 65535 := by
  obtain ⟨n, rfl, hbits⟩ := h
  have hn : n < 2 ^ 16 := by
    refine Nat.lt_pow_two_of_testBit n fun k hk => ?_
    have hle : 2 ^ 16 ≤ 2 ^ k := Nat.pow_le_pow_right (by decide) hk
    rw [hbits, Nat.testBit_lt_two_pow (Nat.lt_of_lt_of_le ha hle),
      Nat.testBit_lt_two_pow (Nat.lt_of_lt_of_le hb hle), hf]
  omega

theorem Computes.word (h : op.Computes a b r) (hop : op.keepsWords = true) (ha : a < 2 ^ 16)
    (hb : b < 2 ^ 16) : 0 ≤ r ∧ r ≤ 65535 := by
  cases op with
  | and | or | xor => exact Bitwise.word h rfl ha hb
  | div =>
      obtain ⟨rest, hr, h0, hlt⟩ := h
      have hq : r = a / b := by
        rw [hr, Int.mul_comm, Int.mul_add_ediv_left _ _ (by omega), Int.ediv_eq_zero_of_lt h0 hlt,
          Int.add_zero]
      have hle : a / b ≤ a := Nat.div_le_self a b
      rw [hq, ← Int.natCast_ediv]
      exact ⟨Int.natCast_nonneg _, Int.ofNat_le.2 (Nat.le_trans hle (Nat.le_of_lt_succ ha))⟩
  | mod =>
      obtain ⟨quotient, -, h0, hlt⟩ := h
      omega
  | shr =>
      have hle : a / 2 ^ (b % 16) ≤ a := Nat.div_le_self a _
      obtain rfl : r = ((a / 2 ^ (b % 16) : Nat) : Int) := by
        rw [Int.natCast_ediv, Int.natCast_pow]
        exact h
      exact ⟨Int.natCast_nonneg _, Int.ofNat_le.2 (Nat.le_trans hle (Nat.le_of_lt_succ ha))⟩
  | not =>
      obtain rfl : r = 65535 - a := h
      omega
  | _ => cases hop

theorem Computes.bounds (h : op.Computes a b r) (ha : a < 2 ^ 16) (hb : b < 2 ^ 16) :
    -65535 ≤ r ∧ r ≤ 65535 ^ 2 := by
  have hmul {c : Nat} (hc : c ≤ 65535) : a * c ≤ 65535 * 65535 :=
    Nat.mul_le_mul (Nat.le_of_lt_succ ha) hc
  cases hop : op.keepsWords with
  | true =>
      have hword := h.word hop ha hb
      omega
  | false =>
      cases op with
      | add | sub | inc | dec =>
          rw [Computes] at h
          omega
      | mul =>
          obtain rfl : r = ((a * b : Nat) : Int) := by
            rw [Int.natCast_mul]
            exact h
          have hle := hmul (Nat.le_of_lt_succ hb)
          omega
      | shl =>
          obtain rfl : r = ((a * 2 ^ (b % 16) : Nat) : Int) := by
            rw [Int.natCast_mul, Int.natCast_pow]
            exact h
          have hpow : 2 ^ (b % 16) ≤ 2 ^ 15 := Nat.pow_le_pow_right (by decide) (by omega)
          have hle := hmul (Nat.le_trans hpow (by decide))
          omega
      | _ => cases hop

end Bounds

end AluOp

namespace Word

variable (a b : Word)

theorem toNat_ofRaw (v : Int64) : ((ofRaw v).toNat : Int) = v.toInt % 2 ^ 16 := by
  have hword : (ofRaw v).toNat = v.toBitVec.toNat % 2 ^ 16 := rfl
  have hraw : v.toInt = (v.toBitVec.toNat : Int).bmod (2 ^ 64) := BitVec.toInt_eq_toNat_bmod _
  rw [hword, hraw, Int.bmod_def]
  split <;> omega

theorem toInt_toRaw_and : (a.toRaw &&& b.toRaw).toInt = (a.toNat &&& b.toNat : Nat) := by
  have h : a.toRaw &&& b.toRaw = (a &&& b).toRaw := by
    simp only [toRaw, UInt16.toUInt64_and, UInt64.toInt64_and]
  rw [h, toInt_toRaw, UInt16.toNat_and]

theorem toInt_toRaw_or : (a.toRaw ||| b.toRaw).toInt = (a.toNat ||| b.toNat : Nat) := by
  have h : a.toRaw ||| b.toRaw = (a ||| b).toRaw := by
    simp only [toRaw, UInt16.toUInt64_or, UInt64.toInt64_or]
  rw [h, toInt_toRaw, UInt16.toNat_or]

theorem toRaw_xor : a.toRaw ^^^ b.toRaw = (a ^^^ b).toRaw := by
  simp only [toRaw, UInt16.toUInt64_xor, UInt64.toInt64_xor]

theorem toInt_toRaw_xor : (a.toRaw ^^^ b.toRaw).toInt = (a.toNat ^^^ b.toNat : Nat) := by
  rw [toRaw_xor, toInt_toRaw, UInt16.toNat_xor]

theorem toInt_toRaw_not : (a.toRaw ^^^ 65535).toInt = 65535 - a.toNat := by
  have hones : (65535 : Int64) = toRaw (-1) := by decide
  have hle : a.toNat ≤ 65535 := Nat.le_of_lt_succ a.toNat_lt
  rw [hones, toRaw_xor, UInt16.xor_neg_one, toInt_toRaw, UInt16.toNat_not]
  exact Int.ofNat_sub hle

theorem toBitVec_amount : (b.toRaw &&& 15).toBitVec.smod 64 = BitVec.ofNat 64 (b.toNat % 16) := by
  have hsmall : ∀ n : Fin 16, (Int64.ofNat n).toBitVec.smod 64 = BitVec.ofNat 64 n := by decide
  have hmask : b.toRaw &&& 15 = Int64.ofNat (b.toNat % 16) := by
    rw [← Int64.toInt_inj, show (15 : Int64) = toRaw 15 by decide, toInt_toRaw_and,
      show (15 : Word).toNat = 2 ^ 4 - 1 from rfl, Nat.and_two_pow_sub_one_eq_mod,
      Int64.toInt_ofNat_of_lt (by omega)]
  rw [hmask]
  exact hsmall ⟨b.toNat % 16, Nat.mod_lt _ (by decide)⟩

theorem toNat_amount : ((b.toRaw &&& 15).toBitVec.smod 64).toNat = b.toNat % 16 := by
  rw [toBitVec_amount, BitVec.toNat_ofNat, Nat.mod_eq_of_lt (by omega)]

theorem toBitVec_toRaw : a.toRaw.toBitVec = BitVec.ofNat 64 a.toNat := by
  rw [toRaw_eq_ofNat, Int64.toBitVec_ofNat']

theorem toInt_toRaw_shl : (a.toRaw <<< (b.toRaw &&& 15)).toInt = a.toNat * 2 ^ (b.toNat % 16) := by
  have ha : a.toNat ≤ 65535 := Nat.le_of_lt_succ a.toNat_lt
  have hpow : 2 ^ (b.toNat % 16) ≤ 2 ^ 15 := Nat.pow_le_pow_right (by decide) (by omega)
  have hle : a.toNat * 2 ^ (b.toNat % 16) ≤ 65535 * 2 ^ 15 := Nat.mul_le_mul ha hpow
  have hshift : a.toRaw <<< (b.toRaw &&& 15) = Int64.ofNat (a.toNat * 2 ^ (b.toNat % 16)) := by
    rw [← Int64.toBitVec_inj, Int64.toBitVec_shiftLeft, BitVec.shiftLeft_eq', toNat_amount,
      toBitVec_toRaw, Int64.toBitVec_ofNat']
    apply BitVec.eq_of_toNat_eq
    rw [BitVec.toNat_shiftLeft, BitVec.toNat_ofNat, BitVec.toNat_ofNat, Nat.shiftLeft_eq,
      Nat.mod_mul_mod]
  rw [hshift, Int64.toInt_ofNat_of_lt (Nat.lt_of_le_of_lt hle (by decide)), Int.natCast_mul,
    Int.natCast_pow]
  rfl

theorem toInt_toRaw_shr : (a.toRaw >>> (b.toRaw &&& 15)).toInt = a.toNat / 2 ^ (b.toNat % 16) := by
  have hshift : (a.toRaw >>> (b.toRaw &&& 15)).toBitVec =
      a.toRaw.toBitVec.sshiftRight (b.toNat % 16) := by
    rw [Int64.toBitVec_shiftRight, BitVec.sshiftRight', toNat_amount]
  rw [← Int64.toInt_toBitVec, hshift, BitVec.toInt_sshiftRight, Int64.toInt_toBitVec, toInt_toRaw,
    Int.shiftRight_eq_div_pow, Int.natCast_pow]
  rfl

end Word

namespace AluOp

section Results

variable {op : AluOp} {a b : Word} {r : Int} {raw : Int64}

theorem Computes.bmod_eq (h : op.Computes a.toNat b.toNat r) : r.bmod (2 ^ 64) = r := by
  have hbounds := h.bounds a.toNat_lt b.toNat_lt
  exact Int.bmod_eq_of_le (by omega) (by omega)

theorem computes_div (hb : b ≠ 0) :
    Computes a.toNat b.toNat (a.toNat / b.toNat : Nat) .div ∧
      Computes a.toNat b.toNat (a.toNat % b.toNat : Nat) .mod := by
  have hpos : 0 < b.toNat := Nat.pos_of_ne_zero fun h => hb (UInt16.toNat_inj.1 h)
  have hsum : (a.toNat : Int) = (a.toNat / b.toNat : Nat) * b.toNat + (a.toNat % b.toNat : Nat) :=
    congrArg Nat.cast (Nat.div_add_mod' a.toNat b.toNat).symm
  have hlt : ((a.toNat % b.toNat : Nat) : Int) < b.toNat := Int.ofNat_lt.2 (Nat.mod_lt _ hpos)
  exact ⟨⟨_, hsum, Int.natCast_nonneg _, hlt⟩, ⟨_, hsum, Int.natCast_nonneg _, hlt⟩⟩

theorem computes_of_raw? (h : op.raw? a.toRaw b.toRaw = some raw) :
    op.Computes a.toNat b.toNat raw.toInt := by
  have hone : (1 : Int64).toInt = 1 := rfl
  cases op with
  | add =>
      cases h
      have hc : Computes a.toNat b.toNat (a.toNat + b.toNat) .add := rfl
      rwa [Int64.toInt_add, Word.toInt_toRaw, Word.toInt_toRaw, hc.bmod_eq]
  | sub =>
      cases h
      have hc : Computes a.toNat b.toNat (a.toNat - b.toNat) .sub := rfl
      rwa [Int64.toInt_sub, Word.toInt_toRaw, Word.toInt_toRaw, hc.bmod_eq]
  | mul =>
      cases h
      have hc : Computes a.toNat b.toNat (a.toNat * b.toNat) .mul := rfl
      rwa [Int64.toInt_mul, Word.toInt_toRaw, Word.toInt_toRaw, hc.bmod_eq]
  | div =>
      obtain ⟨hb, h⟩ := Option.ite_none_left_eq_some.1 h
      cases h
      have hc := (computes_div (a := a) fun h0 => hb (Word.toRaw_eq_zero_iff.2 h0)).1
      rwa [Int64.toInt_div, Word.toInt_toRaw, Word.toInt_toRaw, ← Int.ofNat_tdiv, hc.bmod_eq]
  | mod =>
      obtain ⟨hb, h⟩ := Option.ite_none_left_eq_some.1 h
      cases h
      have hc := (computes_div (a := a) fun h0 => hb (Word.toRaw_eq_zero_iff.2 h0)).2
      rwa [Int64.toInt_mod, Word.toInt_toRaw, Word.toInt_toRaw, ← Int.ofNat_tmod]
  | and =>
      cases h
      exact ⟨_, Word.toInt_toRaw_and a b, Nat.testBit_and _ _⟩
  | or =>
      cases h
      exact ⟨_, Word.toInt_toRaw_or a b, Nat.testBit_or _ _⟩
  | xor =>
      cases h
      exact ⟨_, Word.toInt_toRaw_xor a b, Nat.testBit_xor _ _⟩
  | shl =>
      cases h
      exact Word.toInt_toRaw_shl a b
  | shr =>
      cases h
      exact Word.toInt_toRaw_shr a b
  | not =>
      cases h
      exact Word.toInt_toRaw_not a
  | inc =>
      cases h
      have hc : Computes a.toNat b.toNat (a.toNat + 1) .inc := rfl
      rwa [Int64.toInt_add, Word.toInt_toRaw, hone, hc.bmod_eq]
  | dec =>
      cases h
      have hc : Computes a.toNat b.toNat (a.toNat - 1) .dec := rfl
      rwa [Int64.toInt_sub, Word.toInt_toRaw, hone, hc.bmod_eq]

theorem exact_ofRaw (h : op.raw? a.toRaw b.toRaw = some raw) : op.Exact a b (.ofRaw raw) := by
  have hc := computes_of_raw? h
  obtain ⟨least, most⟩ := hc.bounds a.toNat_lt b.toNat_lt
  have hvalue : ((Word.ofRaw raw).toNat : Int) = raw.toInt % 2 ^ 16 := Word.toNat_ofRaw raw
  refine ⟨hc, least, most, hvalue, Flags.zero_ofRaw raw, ?_, Flags.negative_ofRaw raw, ?_⟩
  · rw [show (Alu.Output.ofRaw raw).value = Word.ofRaw raw from rfl, hvalue]
    refine (Flags.carry_ofRaw raw).trans ?_
    rw [show (Alu.Output.ofRaw raw).raw = raw from rfl]
    omega
  · intro hop
    have hword := hc.word hop a.toNat_lt b.toNat_lt
    refine Bool.eq_false_iff.2 fun hcarry => ?_
    have hout := (Flags.carry_ofRaw raw).1 hcarry
    omega

end Results

end AluOp

section Compute

variable {op : AluOp} {a b : Word}

theorem eval?_eq_none_iff : Alu.eval? op a b = none ↔ (op = .div ∨ op = .mod) ∧ b = 0 := by
  rw [Alu.eval?, Option.map_eq_none_iff]
  cases op <;> simp [AluOp.raw?, AluOp.circuit, AluOp.Circuit.eval?, AluOp.arithmetic?,
    Word.toRaw_eq_zero_iff]

theorem compute_eq_error_iff {f : Fault} : Processor.compute op a b = .error f ↔
    (op = .div ∨ op = .mod) ∧ b = 0 ∧ f = .divisionByZero := by
  rw [← and_assoc, ← eval?_eq_none_iff (a := a)]
  cases he : Alu.eval? op a b <;> simp [Processor.compute, he, eq_comm]

end Compute

theorem alu_is_exact (op : AluOp) (a b : Word) :
    (∀ f, Processor.compute op a b = .error f ↔
      (op = .div ∨ op = .mod) ∧ b = 0 ∧ f = .divisionByZero) ∧
    ∀ out, Processor.compute op a b = .ok out → op.Exact a b out := by
  refine ⟨fun f => compute_eq_error_iff, fun out h => ?_⟩
  obtain ⟨raw, hraw, rfl⟩ := Option.map_eq_some_iff.1 (Processor.eval?_of_compute h)
  exact AluOp.exact_ofRaw hraw

theorem alu_is_exact_shifted :
    Processor.compute .shl 0x8003 31 = .ok ⟨1073840128, 0x8000, ⟨false, true, true⟩⟩ ∧
      AluOp.Exact .shl 0x8003 31 ⟨1073840128, 0x8000, ⟨false, true, true⟩⟩ := by
  have h : Processor.compute .shl 0x8003 31 =
      .ok ⟨1073840128, 0x8000, ⟨false, true, true⟩⟩ := rfl
  exact ⟨h, (alu_is_exact .shl 0x8003 31).2 _ h⟩

end VectorMachine
