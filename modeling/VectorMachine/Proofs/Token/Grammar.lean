import Mathlib.Data.List.Forall2
import Mathlib.Data.Nat.Digits.Defs
import VectorMachine.Proofs.Token.Literal

namespace VectorMachine.Token

def Signs (c : Char) (d : Nat) : Prop :=
  "0123456789abcdef".toList[d]? = some c ∨ "0123456789ABCDEF".toList[d]? = some c

instance (c : Char) (d : Nat) : Decidable (Signs c d) :=
  inferInstanceAs (Decidable (_ ∨ _))

inductive Numeral (radix : Nat) : List Char → Nat → Prop where
  | intro {cs : List Char} {ds : List Nat} (nonempty : cs ≠ []) (signs : List.Forall₂ Signs cs ds)
      (below : ∀ d ∈ ds, d < radix) : Numeral radix cs (Nat.ofDigits radix ds.reverse)

inductive Unsigned : List Char → Nat → Prop where
  | decimal {cs : List Char} {m : Nat} (h : Numeral 10 cs m) : Unsigned cs m
  | hexadecimal {x : Char} {cs : List Char} {m : Nat} (hx : x = 'x' ∨ x = 'X')
      (h : Numeral 16 cs m) : Unsigned ('0' :: x :: cs) m

inductive Literal : List Char → Int → Prop where
  | plain {cs : List Char} {m : Nat} (h : Unsigned cs m) : Literal cs m
  | negative {cs : List Char} {m : Nat} (h : Unsigned cs m) : Literal ('-' :: cs) (-m)

inductive RegisterName : List Char → Nat → Prop where
  | intro {r : Char} {cs : List Char} {n : Nat} (hr : r = 'R' ∨ r = 'r') (h : Numeral 10 cs n) :
      RegisterName (r :: cs) n

def Letter (c : Char) : Prop :=
  'a' ≤ c ∧ c ≤ 'z' ∨ 'A' ≤ c ∧ c ≤ 'Z'

inductive Name : List Char → Prop where
  | intro {c : Char} {cs : List Char} (head : Letter c ∨ c = '_')
      (tail : ∀ d ∈ cs, Letter d ∨ (∃ k < 10, Signs d k) ∨ d = '_') : Name (c :: cs)

section Digits

variable {c : Char} {d : Nat}

theorem Signs.lt (h : Signs c d) : d < 16 := by
  rcases h with h | h <;> exact (List.getElem?_eq_some_iff.1 h).1

theorem toNat_lt_of_hexDigit? (h : Text.hexDigit? c = some d) : c.toNat < 128 := by
  have hf : c ≤ 'f' ↔ c.toNat ≤ 102 := Iff.rfl
  have hF : c ≤ 'F' ↔ c.toNat ≤ 70 := Iff.rfl
  have h9 : c.isDigit = true ↔ 48 ≤ c.toNat ∧ c.toNat ≤ 57 := Char.isDigit_iff_toNat
  unfold Text.hexDigit? at h
  split_ifs at h with hdigit hlower hupper
  · have hle := (h9.1 hdigit).2
    omega
  · have hle := hf.1 hlower.2
    omega
  · have hle := hF.1 hupper.2
    omega

theorem hexDigit?_eq_some_iff : Text.hexDigit? c = some d ↔ Signs c d := by
  constructor
  · intro h
    -- Only the first 128 characters can be digits, and they are few enough to be looked at.
    have hall : ∀ n < 128, (Text.hexDigit? (Char.ofNat n)).all fun e => Signs (Char.ofNat n) e := by
      decide +kernel
    have hsigns := hall c.toNat (toNat_lt_of_hexDigit? h)
    rw [Char.ofNat_toNat, h] at hsigns
    exact of_decide_eq_true hsigns
  · have hlower : ∀ e < 16, ("0123456789abcdef".toList[e]?).bind Text.hexDigit? = some e := by
      decide +kernel
    have hupper : ∀ e < 16, ("0123456789ABCDEF".toList[e]?).bind Text.hexDigit? = some e := by
      decide +kernel
    intro h
    have hlt := h.lt
    rcases h with h | h
    · have hd := hlower d hlt
      rwa [h] at hd
    · have hd := hupper d hlt
      rwa [h] at hd

theorem isDigit_iff_signs : c.isDigit = true ∧ d = c.toNat - '0'.toNat ↔ d < 10 ∧ Signs c d := by
  have h9 : c.isDigit = true ↔ 48 ≤ c.toNat ∧ c.toNat ≤ 57 := Char.isDigit_iff_toNat
  have hzero : '0'.toNat = 48 := rfl
  rw [← hexDigit?_eq_some_iff, Text.hexDigit?]
  cases hdigit : c.isDigit with
  | true =>
      have hbounds := h9.1 hdigit
      simp only [if_true, Option.some.injEq, true_and]
      omega
  | false =>
      simp only [Bool.false_eq_true, false_and, if_false, false_iff, not_and]
      intro hd h
      split_ifs at h <;> simp only [Option.some.injEq] at h <;> omega

theorem fold_eq_some_iff {radix : Nat} {digit? : Char → Option Nat}
    (hdigit : ∀ {c d}, digit? c = some d ↔ d < radix ∧ Signs c d) (f : Nat → List Char → Option Nat)
    (hnil : ∀ acc, f acc [] = some acc)
    (hcons : ∀ acc c cs, f acc (c :: cs) = (digit? c).bind fun d => f (radix * acc + d) cs)
    (cs : List Char) (acc m : Nat) :
    f acc cs = some m ↔ ∃ ds, List.Forall₂ Signs cs ds ∧ (∀ d ∈ ds, d < radix) ∧
      m = ds.foldl (fun n d => radix * n + d) acc := by
  -- The number read so far differs at each character, so the induction is for any of them.
  induction cs generalizing acc with
  | nil => simp [hnil, List.forall₂_nil_left_iff, @eq_comm _ acc m]
  | cons c cs ih =>
      rw [hcons, Option.bind_eq_some_iff]
      constructor
      · rintro ⟨d, hd, hf⟩
        obtain ⟨hlt, hsigns⟩ := hdigit.1 hd
        obtain ⟨ds, hrow, hbelow, rfl⟩ := (ih _).1 hf
        exact ⟨d :: ds, .cons hsigns hrow, List.forall_mem_cons.2 ⟨hlt, hbelow⟩, rfl⟩
      · rintro ⟨ds, hrow, hbelow, rfl⟩
        cases hrow with
        | cons hsigns hrow =>
            obtain ⟨hlt, hbelow⟩ := List.forall_mem_cons.1 hbelow
            exact ⟨_, hdigit.2 ⟨hlt, hsigns⟩, (ih _).2 ⟨_, hrow, hbelow, rfl⟩⟩

theorem numeral_iff {radix : Nat} {cs : List Char} {m : Nat} :
    Numeral radix cs m ↔ cs ≠ [] ∧ ∃ ds, List.Forall₂ Signs cs ds ∧ (∀ d ∈ ds, d < radix) ∧
      m = ds.foldl (fun n d => radix * n + d) 0 := by
  have hvalue (ds : List Nat) :
      Nat.ofDigits radix ds.reverse = ds.foldl (fun n d => radix * n + d) 0 := by
    simp [Nat.ofDigits_eq_foldr, Nat.add_comm]
  constructor
  · rintro ⟨hne, hrow, hbelow⟩
    exact ⟨hne, _, hrow, hbelow, hvalue _⟩
  · rintro ⟨hne, ds, hrow, hbelow, rfl⟩
    exact hvalue ds ▸ .intro hne hrow hbelow

theorem hexadecimal?_eq_some_iff {cs : List Char} {m : Nat} :
    Text.hexadecimal? cs = some m ↔ Numeral 16 cs m := by
  have hdigit {c : Char} {d : Nat} : Text.hexDigit? c = some d ↔ d < 16 ∧ Signs c d := by
    rw [hexDigit?_eq_some_iff]
    exact ⟨fun h => ⟨h.lt, h⟩, And.right⟩
  rw [numeral_iff, ← fold_eq_some_iff hdigit Text.hexFrom? (fun _ => rfl) (fun _ _ _ => rfl),
    Text.hexadecimal?, Option.ite_none_left_eq_some]

def decimalDigit? (c : Char) : Option Nat :=
  if c.isDigit then some (c.toNat - '0'.toNat) else none

theorem decimal?_eq_some_iff {cs : List Char} {m : Nat} :
    Text.decimal? cs = some m ↔ Numeral 10 cs m := by
  have hdigit {c : Char} {d : Nat} : decimalDigit? c = some d ↔ d < 10 ∧ Signs c d := by
    rw [← isDigit_iff_signs, decimalDigit?, Option.ite_none_right_eq_some, Option.some.injEq,
      @eq_comm _ d]
  rw [numeral_iff, ← fold_eq_some_iff hdigit
    (fun acc cs => if cs.all Char.isDigit then some (Nat.ofDigitChars 10 cs acc) else none)
    (fun _ => rfl) ?_, Text.decimal?]
  · simp only [Option.ite_none_right_eq_some, and_assoc]
  · intro acc c cs
    rw [decimalDigit?, List.all_cons, Nat.ofDigitChars_cons]
    cases c.isDigit <;> rfl

end Digits

section Literals

variable {cs : List Char} {m : Nat} {z : Int}

theorem Numeral.head_isDigit (h : Numeral 10 cs m) : ∃ c ds, cs = c :: ds ∧ c.isDigit = true := by
  obtain ⟨hne, hrow, hbelow⟩ := h
  cases hrow with
  | nil => exact absurd rfl hne
  | cons hsigns _ =>
      exact ⟨_, _, rfl, (isDigit_iff_signs.2 ⟨hbelow _ List.mem_cons_self, hsigns⟩).1⟩

theorem Unsigned.head_isDigit (h : Unsigned cs m) : ∃ c ds, cs = c :: ds ∧ c.isDigit = true := by
  cases h with
  | decimal h => exact h.head_isDigit
  | hexadecimal _ _ => exact ⟨_, _, rfl, rfl⟩

theorem not_numeral_of_marked {x : Char} (hx : x = 'x' ∨ x = 'X') {ds : List Char} :
    ¬ Numeral 10 ('0' :: x :: ds) m := by
  rw [← decimal?_eq_some_iff, Text.decimal?]
  rcases hx with rfl | rfl <;> simp

theorem magnitude?_eq_some_iff : magnitude? cs = some m ↔ Unsigned cs m := by
  have hmarked {x : Char} (hx : x = 'x' ∨ x = 'X') (ds : List Char) :
      Text.hexadecimal? ds = some m ↔ Unsigned ('0' :: x :: ds) m := by
    rw [hexadecimal?_eq_some_iff]
    refine ⟨.hexadecimal hx, fun h => ?_⟩
    cases h with
    | decimal h => exact absurd h (not_numeral_of_marked hx)
    | hexadecimal _ h => exact h
  unfold magnitude?
  split
  · exact hmarked (.inl rfl) _
  · exact hmarked (.inr rfl) _
  · rename_i hlower hupper
    rw [decimal?_eq_some_iff]
    refine ⟨.decimal, fun h => ?_⟩
    cases h with
    | decimal h => exact h
    | hexadecimal hx _ => rcases hx with rfl | rfl <;> simp_all

theorem literal_minus_iff : Literal ('-' :: cs) z ↔ ∃ m : Nat, Unsigned cs m ∧ z = -m := by
  constructor
  · intro h
    cases h with
    | plain h =>
        obtain ⟨c, ds, hcs, hdigit⟩ := h.head_isDigit
        obtain ⟨rfl, -⟩ := List.cons.inj hcs
        cases hdigit
    | negative h => exact ⟨_, h, rfl⟩
  · rintro ⟨m, h, rfl⟩
    exact .negative h

theorem literal_iff_of_ne_minus (hcs : ∀ body, cs ≠ '-' :: body) :
    Literal cs z ↔ ∃ m : Nat, Unsigned cs m ∧ z = m := by
  constructor
  · intro h
    cases h with
    | plain h => exact ⟨_, h, rfl⟩
    | negative _ => exact absurd rfl (hcs _)
  · rintro ⟨m, h, rfl⟩
    exact .plain h

theorem limited_eq_some_iff {f : Nat → Int64} {g : Nat → Int}
    (hfg : ∀ m ≤ magnitudeLimit, (f m).toInt = g m) (hg : ∀ m, (g m).natAbs = m) {v : Int64} :
    ((magnitude? cs).bind fun m => if m ≤ magnitudeLimit then some (f m) else none) = some v ↔
      (∃ m, Unsigned cs m ∧ v.toInt = g m) ∧ v.toInt.natAbs ≤ magnitudeLimit := by
  simp only [Option.bind_eq_some_iff, magnitude?_eq_some_iff, Option.ite_none_right_eq_some,
    Option.some.injEq]
  constructor
  · rintro ⟨m, hm, hle, rfl⟩
    rw [hfg m hle, hg]
    exact ⟨⟨m, hm, rfl⟩, hle⟩
  · rintro ⟨⟨m, hm, hz⟩, hle⟩
    rw [hz, hg] at hle
    exact ⟨m, hm, hle, Int64.toInt_inj.1 ((hfg m hle).trans hz.symm)⟩

theorem integer?_eq_some_iff {v : Int64} :
    integer? cs = some v ↔ Literal cs v.toInt ∧ v.toInt.natAbs ≤ 2 ^ 63 - 1 := by
  have hlimit : 2 ^ 63 - 1 = magnitudeLimit := rfl
  have hlt {m : Nat} (h : m ≤ magnitudeLimit) : m < 2 ^ 63 := Nat.lt_of_le_of_lt h (by decide)
  rw [hlimit]
  unfold integer?
  split
  · rw [literal_minus_iff]
    refine limited_eq_some_iff (fun m h => ?_) fun m => ?_
    · exact Int64.toInt_neg_ofNat_of_le (hlt h).le
    · rw [Int.natAbs_neg, Int.natAbs_natCast]
  · rename_i hminus
    rw [literal_iff_of_ne_minus hminus]
    exact limited_eq_some_iff (fun _ h => Int64.toInt_ofNat_of_lt (hlt h)) Int.natAbs_natCast

theorem Literal.not_isIdentifier (h : Literal cs z) : isIdentifier cs = false := by
  have hopens {c : Char} (hc : c.isDigit = true ∨ c = '-') :
      (c.isAlpha || c == '_') = false := by
    refine Bool.eq_false_iff.2 fun ho => ?_
    rcases hc with hd | rfl
    · rw [not_isDigit_of_opens ho] at hd
      cases hd
    · cases ho
  cases h with
  | plain h =>
      obtain ⟨c, ds, rfl, hc⟩ := h.head_isDigit
      rw [isIdentifier, hopens (.inl hc), Bool.false_and]
  | negative h => rw [isIdentifier, hopens (.inr rfl), Bool.false_and]

end Literals

section Names

variable {cs : List Char} {n : Nat}

theorem registerName_iff : RegisterName cs n ↔
    isRegisterName cs = true ∧ Nat.ofDigitChars 10 cs.tail 0 = n := by
  constructor
  · rintro ⟨hr, h⟩
    obtain ⟨d, ds, rfl, -⟩ := h.head_isDigit
    have hd := decimal?_eq_some_iff.2 h
    rw [Text.decimal?, Option.ite_none_right_eq_some, Option.some.injEq] at hd
    refine ⟨?_, hd.2⟩
    simp [isRegisterName, hr, hd.1.2]
  · rintro ⟨h, rfl⟩
    rcases cs with _ | ⟨r, _ | ⟨d, ds⟩⟩
    · cases h
    · cases h
    · simp only [isRegisterName, Bool.and_eq_true, Bool.or_eq_true, beq_iff_eq] at h
      refine .intro h.1 (decimal?_eq_some_iff.1 ?_)
      rw [Text.decimal?, if_pos ⟨List.cons_ne_nil _ _, h.2⟩]
      rfl

theorem isAlpha_iff_letter {c : Char} : c.isAlpha = true ↔ Letter c := by
  rw [isAlpha_eq, Bool.or_eq_true, Bool.and_eq_true, decide_eq_true_iff, decide_eq_true_iff,
    decide_eq_true_iff, or_comm]
  exact Iff.rfl

theorem isDigit_iff_exists {c : Char} : c.isDigit = true ↔ ∃ k < 10, Signs c k := by
  simp only [← isDigit_iff_signs, exists_and_left, exists_eq, and_true]

theorem name_iff : Name cs ↔ isIdentifier cs = true := by
  have hname {c : Char} {ds : List Char} : isIdentifier (c :: ds) = true ↔ (Letter c ∨ c = '_') ∧
      ∀ d ∈ ds, Letter d ∨ (∃ k < 10, Signs d k) ∨ d = '_' := by
    simp only [isIdentifier, Char.isAlphanum, Bool.and_eq_true, Bool.or_eq_true, beq_iff_eq,
      List.all_eq_true, isAlpha_iff_letter, isDigit_iff_exists, or_assoc]
  constructor
  · rintro ⟨hc, hds⟩
    exact hname.2 ⟨hc, hds⟩
  · intro h
    cases cs with
    | nil => cases h
    | cons c ds => exact .intro (hname.1 h).1 (hname.1 h).2

end Names

end VectorMachine.Token
