import VectorMachine.Token

namespace VectorMachine.Token

theorem isDigit_of_mem_toDigits {n : Nat} {c : Char} (h : c ∈ Nat.toDigits 10 n) :
    c.isDigit = true :=
  Nat.isDigit_of_mem_toDigits (by decide) (by decide) h

theorem magnitude?_of_head {c : Char} {cs : List Char} (h : c ≠ '0' ∨ cs.head?.all Char.isDigit) :
    magnitude? (c :: cs) = Text.decimal? (c :: cs) := by
  unfold magnitude?
  split <;> simp_all

theorem magnitude?_toDigits (n : Nat) : magnitude? (Nat.toDigits 10 n) = some n := by
  have hdigits : ∀ c ∈ Nat.toDigits 10 n, c.isDigit = true := fun c => isDigit_of_mem_toDigits
  have hn := Text.decimal?_toDigits n
  cases hd : Nat.toDigits 10 n with
  | nil => exact absurd hd Nat.toDigits_ne_nil
  | cons c cs =>
      rw [hd] at hdigits hn
      rw [magnitude?_of_head ?_, hn]
      refine .inr ?_
      cases cs with
      | nil => rfl
      | cons d ds => exact hdigits d (by simp)

theorem magnitudeLimit_eq : magnitudeLimit = 9223372036854775807 := rfl

theorem integer?_of_ne_minus {c : Char} {cs : List Char} (h : c ≠ '-') :
    integer? (c :: cs) = (magnitude? (c :: cs)).bind fun m =>
      if m ≤ magnitudeLimit then some (Int64.ofNat m) else none := by
  unfold integer?
  split
  · rename_i heq
    exact absurd (List.cons.inj heq).1 h
  · rfl

theorem toList_text_int (n : Int) : (toString n).toList =
    if 0 ≤ n then Nat.toDigits 10 n.toNat else '-' :: Nat.toDigits 10 (-n).toNat := by
  rw [Int.toString_eq_repr, Int.repr_eq_if]
  split <;> simp [Nat.repr_eq_ofList_toDigits]

theorem integer?_toDigits {n : Nat} (h : n ≤ magnitudeLimit) :
    integer? (Nat.toDigits 10 n) = some (Int64.ofNat n) := by
  have hm := magnitude?_toDigits n
  cases hd : Nat.toDigits 10 n with
  | nil => exact absurd hd Nat.toDigits_ne_nil
  | cons c cs =>
      have hc : c ≠ '-' := by
        have hdigit : c.isDigit = true := isDigit_of_mem_toDigits (n := n) (by simp [hd])
        intro he
        rw [he] at hdigit
        cases hdigit
      rw [integer?_of_ne_minus hc, ← hd, hm, Option.bind_some, if_pos h]

theorem integer?_text {v : Int64} (h : v ≠ Int64.minValue) :
    integer? (toString v.toInt).toList = some v := by
  have hlo := v.le_toInt
  have hhi := v.toInt_lt
  have hne : v.toInt ≠ -2 ^ 63 := fun he => h (Int64.toInt_inj.1 he)
  rw [toList_text_int]
  split
  · rename_i hpos
    have hn : (v.toInt.toNat : Int) = v.toInt := Int.toNat_of_nonneg hpos
    have hle : v.toInt.toNat ≤ magnitudeLimit := by rw [magnitudeLimit_eq]; omega
    rw [integer?_toDigits hle, ← Int64.ofInt_eq_ofNat, hn, Int64.ofInt_toInt]
  · rename_i hneg
    have hn : ((-v.toInt).toNat : Int) = -v.toInt := Int.toNat_of_nonneg (by omega)
    have hle : (-v.toInt).toNat ≤ magnitudeLimit := by rw [magnitudeLimit_eq]; omega
    rw [integer?, magnitude?_toDigits, Option.bind_some, if_pos hle, ← Int64.ofInt_eq_ofNat, hn,
      Int64.ofInt_neg, Int64.ofInt_toInt, Int64.neg_neg]

theorem ofNat_ne_minValue {m : Nat} (h : m ≤ magnitudeLimit) : Int64.ofNat m ≠ Int64.minValue := by
  intro he
  rw [magnitudeLimit_eq] at h
  have hm : (Int64.ofNat m).toInt = m := Int64.toInt_ofNat_of_lt (by omega)
  rw [he] at hm
  have hmin : Int64.minValue.toInt = -2 ^ 63 := rfl
  omega

theorem ne_minValue_of_integer? {cs : List Char} {v : Int64} (h : integer? cs = some v) :
    v ≠ Int64.minValue := by
  unfold integer? at h
  split at h
  · obtain ⟨m, -, hm⟩ := Option.bind_eq_some_iff.1 h
    split at hm
    · rename_i hle
      cases hm
      intro he
      exact ofNat_ne_minValue hle (Int64.neg_inj.1 (he.trans (by decide)))
    · cases hm
  · obtain ⟨m, -, hm⟩ := Option.bind_eq_some_iff.1 h
    split at hm
    · rename_i hle
      cases hm
      exact ofNat_ne_minValue hle
    · cases hm

theorem isAlpha_eq (c : Char) : c.isAlpha =
    (decide (65 ≤ c.val ∧ c.val ≤ 90) || (decide (97 ≤ c.val) && decide (c.val ≤ 122))) := rfl

theorem not_isDigit_of_opens {c : Char} (h : (c.isAlpha || c == '_') = true) :
    c.isDigit = false := by
  simp only [Bool.or_eq_true, beq_iff_eq] at h
  rcases h with ha | rfl
  · simp only [isAlpha_eq, Char.isDigit] at ha ⊢
    grind
  · rfl

theorem integer?_eq_none_of_isIdentifier {cs : List Char} (h : isIdentifier cs = true) :
    integer? cs = none := by
  cases cs with
  | nil => cases h
  | cons c cs =>
      simp only [isIdentifier, Bool.and_eq_true] at h
      have hdigit := not_isDigit_of_opens h.1
      have hminus : c ≠ '-' := fun he => by rw [he] at h; exact absurd h.1 (by decide)
      have hzero : c ≠ '0' := fun he => by rw [he] at hdigit; cases hdigit
      have hdec : Text.decimal? (c :: cs) = none := by simp [Text.decimal?, hdigit]
      rw [integer?_of_ne_minus hminus, magnitude?_of_head (.inl hzero), hdec, Option.bind_none]

end VectorMachine.Token
