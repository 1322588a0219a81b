import VectorMachine.Json.Printer
import VectorMachine.Json.Token

namespace VectorMachine

namespace Text

theorem hexDigit?_digitChar : ∀ d < 16, hexDigit? (Nat.digitChar d) = some d := by decide

theorem hexFrom?_digitChar (acc : Nat) {d : Nat} (h : d < 16) (cs : List Char) :
    hexFrom? acc (Nat.digitChar d :: cs) = hexFrom? (16 * acc + d) cs := by
  rw [hexFrom?, hexDigit?_digitChar d h]
  rfl

theorem hexFrom?_hexFour {n : Nat} (h : n < 65536) : hexFrom? 0 (hexFour n) = some n := by
  have hdigits : 16 * (16 * (16 * (16 * 0 + n / 4096 % 16) + n / 256 % 16) + n / 16 % 16) +
      n % 16 = n := by omega
  have hlt (m : Nat) : m % 16 < 16 := Nat.mod_lt m (by decide)
  simp only [hexFour, List.map_cons, List.map_nil]
  rw [hexFrom?_digitChar _ (hlt _), hexFrom?_digitChar _ (hlt _), hexFrom?_digitChar _ (hlt _),
    hexFrom?_digitChar _ (hlt _), hdigits]
  rfl

end Text

namespace Json

inductive Names (c : Char) : Piece → Prop where
  | char : Names c (.char c)
  | unit (h : c.toNat < 32) : Names c (.unit c.toNat)

theorem joinFrom_unit {n : Nat} (hhigh : isHighHalf n = false) (hlow : isLowHalf n = false)
    (acc : List Char) (rest : List Piece) :
    joinFrom acc (.unit n :: rest) = joinFrom (Char.ofNat n :: acc) rest := by
  rcases rest with _ | ⟨c | m, rest⟩
  all_goals simp [joinFrom, hhigh, hlow]

theorem Names.joinFrom_cons {c : Char} {piece : Piece} (h : Names c piece) (acc : List Char)
    (rest : List Piece) : joinFrom acc (piece :: rest) = joinFrom (c :: acc) rest := by
  cases h with
  | char => rfl
  | unit h =>
      have hhigh : isHighHalf c.toNat = false := by simp [isHighHalf]; omega
      have hlow : isLowHalf c.toNat = false := by simp [isLowHalf]; omega
      rw [joinFrom_unit hhigh hlow, Char.ofNat_toNat]

def Named (c : Char) : Prop :=
  c = '"' ∨ c = '\\' ∨ c = '\n' ∨ c = '\r' ∨ c = '\t' ∨ c = '\x08' ∨ c = '\x0c'

theorem escape_of_not_named {c : Char} (h : ¬ Named c) :
    escape c = if c.toNat < 32 then '\\' :: 'u' :: Text.hexFour c.toNat else [c] := by
  simp only [Named, not_or] at h
  obtain ⟨hquote, hstroke, hn, hr, ht, hb, hf⟩ := h
  rw [escape, if_neg hquote, if_neg hstroke, if_neg hn, if_neg hr, if_neg ht, if_neg hb, if_neg hf]

theorem scanString_hexFour {n : Nat} (h : n < 65536) (acc : List Piece) (rest : List Char) :
    scanString acc ('\\' :: 'u' :: Text.hexFour n ++ rest) = scanString (.unit n :: acc) rest := by
  have hhex := Text.hexFrom?_hexFour h
  simp only [Text.hexFour, List.map_cons, List.map_nil] at hhex ⊢
  simp only [List.cons_append, List.nil_append, scanString, hhex]

theorem scanString_cons {c : Char} (hquote : c ≠ '"') (hstroke : c ≠ '\\') (h : ¬ c.toNat < 32)
    (acc : List Piece) (rest : List Char) :
    scanString acc (c :: rest) = scanString (.char c :: acc) rest := by
  rw [scanString, if_neg h]
  · exact hquote
  · exact fun _ _ _ _ _ hc _ => hstroke hc
  · exact fun _ _ hc _ => hstroke hc

theorem exists_piece (c : Char) (rest : List Char) : ∃ piece, Names c piece ∧
    ∀ acc, scanString acc (escape c ++ rest) = scanString (piece :: acc) rest := by
  by_cases hnamed : Named c
  · refine ⟨.char c, .char, fun acc => ?_⟩
    rcases hnamed with rfl | rfl | rfl | rfl | rfl | rfl | rfl
    all_goals rfl
  · rw [escape_of_not_named hnamed]
    by_cases hcontrol : c.toNat < 32
    · rw [if_pos hcontrol]
      have hlt : c.toNat < 65536 := by omega
      exact ⟨.unit c.toNat, .unit hcontrol, fun acc => scanString_hexFour hlt acc rest⟩
    · rw [if_neg hcontrol]
      simp only [Named, not_or] at hnamed
      exact ⟨.char c, .char, fun acc => scanString_cons hnamed.1 hnamed.2.1 hcontrol acc rest⟩

theorem scanString_flatMap_escape (cs rest : List Char) : ∃ pieces,
    (∀ acc, scanString acc (cs.flatMap escape ++ '"' :: rest) =
      some (acc.reverse ++ pieces, rest)) ∧
    ∀ acc, joinFrom acc pieces = some (String.ofList (acc.reverse ++ cs)) := by
  -- the pieces are not the characters: a control character comes back as a number
  induction cs with
  | nil => exact ⟨[], fun acc => by simp [scanString], fun acc => by simp [joinFrom]⟩
  | cons c cs ih =>
      obtain ⟨pieces, hscan, hjoin⟩ := ih
      obtain ⟨piece, hnames, hpiece⟩ := exists_piece c (cs.flatMap escape ++ '"' :: rest)
      refine ⟨piece :: pieces, fun acc => ?_, fun acc => ?_⟩
      · rw [List.flatMap_cons, List.append_assoc, hpiece, hscan]
        simp
      · rw [hnames.joinFrom_cons, hjoin]
        simp

theorem scanString_quoted (s : Option String) (rest : List Char) :
    ∃ pieces, scanString [] (quoted s ++ '"' :: rest) = some (pieces, rest) ∧
      joinFrom [] pieces = s := by
  cases s with
  | none => exact ⟨[.unit 0xD800], rfl, rfl⟩
  | some s =>
      obtain ⟨pieces, hscan, hjoin⟩ := scanString_flatMap_escape s.toList rest
      exact ⟨pieces, hscan [], (hjoin []).trans (congrArg some String.ofList_toList)⟩

end Json

end VectorMachine
