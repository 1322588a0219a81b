import Mathlib.Data.List.Basic
import Mathlib.Data.List.TakeWhile
import VectorMachine.Json.Reader
import VectorMachine.Proofs.Json.Strings

namespace VectorMachine.Json

def IsLexeme (lexeme : String) : Prop :=
  isNumber lexeme.toList = true ∧ ∀ c ∈ lexeme.toList, isNumberChar c = true

inductive Plain : Json → Prop where
  | null : Plain .null
  | bool (b : Bool) : Plain (.bool b)
  | number {lexeme : String} (h : IsLexeme lexeme) : Plain (.number lexeme)
  | string (s : Option String) : Plain (.string s)
  | array {items : List Json} (h : ∀ j ∈ items, Plain j) : Plain (.array items)
  | object {members : List (Option String × Json)} (h : ∀ m ∈ members, Plain m.2) :
      Plain (.object members)

theorem head?_toDigits_ne {n : Nat} (h : 0 < n) : (Nat.toDigits 10 n).head? ≠ some '0' := by
  induction n using Nat.strongRecOn with
  | ind n ih =>
      by_cases hlt : n < 10
      · have hdigit : ∀ d < 10, 0 < d → Nat.digitChar d ≠ '0' := by decide
        rw [Nat.toDigits_of_lt_base hlt]
        exact fun hzero => hdigit n hlt h (Option.some.inj hzero)
      · rw [Nat.toDigits_of_base_le (by decide) (by omega), List.head?_append_of_ne_nil _
          Nat.toDigits_ne_nil]
        exact ih (n / 10) (by omega) (by omega)

theorem isNumber_toDigits (n : Nat) : isNumber (Nat.toDigits 10 n) = true := by
  rcases Nat.eq_zero_or_pos n with rfl | hpos
  · rfl
  · have hzero := head?_toDigits_ne hpos
    have hdigits (c : Char) (hc : c ∈ Nat.toDigits 10 n) : c.isDigit = true :=
      Nat.isDigit_of_mem_toDigits (by decide) (by decide) hc
    cases hcs : Nat.toDigits 10 n with
    | nil => exact absurd hcs Nat.toDigits_ne_nil
    | cons c cs =>
        rw [hcs] at hzero hdigits
        have hc : c ≠ '0' := fun h => hzero (congrArg some h)
        obtain ⟨hdigit, hrest⟩ := List.forall_mem_cons.1 hdigits
        have hend : cs.dropWhile Char.isDigit = [] := List.dropWhile_eq_nil_iff.2 hrest
        have hunsigned : isUnsigned (c :: cs) = true := by
          rw [isUnsigned, if_neg hc, hdigit, hend]
          rfl
        rw [isNumber]
        · exact hunsigned
        · rintro ds h
          obtain ⟨rfl, -⟩ := List.cons.inj h
          cases hdigit

theorem plain_nat (n : Nat) : Plain (nat n) := by
  have htext : (toString n).toList = Nat.toDigits 10 n := by
    rw [Nat.toString_eq_ofList_toDigits, String.toList_ofList]
  refine .number ⟨htext ▸ isNumber_toDigits n, fun c hc => ?_⟩
  have hdigit : c.isDigit = true :=
    Nat.isDigit_of_mem_toDigits (by decide) (by decide) (htext ▸ hc)
  simp only [isNumberChar, hdigit, Bool.true_or]

mutual

def tokens : Json → List Token → List Token
  | .null, rest => .null :: rest
  | .bool b, rest => .bool b :: rest
  | .number lexeme, rest => .number lexeme :: rest
  | .string s, rest => .string s :: rest
  | .array [], rest => .leftBracket :: .rightBracket :: rest
  | .array (j :: js), rest => .leftBracket :: tokens j (itemTokens js rest)
  | .object [], rest => .leftBrace :: .rightBrace :: rest
  | .object ((k, j) :: ms), rest =>
      .leftBrace :: .string k :: .colon :: tokens j (memberTokens ms rest)

def itemTokens : List Json → List Token → List Token
  | [], rest => .rightBracket :: rest
  | j :: js, rest => .comma :: tokens j (itemTokens js rest)

def memberTokens : List (Option String × Json) → List Token → List Token
  | [], rest => .rightBrace :: rest
  | (k, j) :: ms, rest => .comma :: .string k :: .colon :: tokens j (memberTokens ms rest)

end

section Lexing

def Ends (rest : List Char) : Prop := ∀ c ∈ rest.head?, isNumberChar c = false

theorem ends_nil : Ends [] := by
  intro c hc
  cases hc

theorem ends_cons {c : Char} (h : isNumberChar c = false) (rest : List Char) :
    Ends (c :: rest) := by
  intro d hd
  obtain rfl : c = d := Option.some.inj hd
  exact h

theorem ends_writeItems (js : List Json) (rest : List Char) : Ends (writeItems js rest) := by
  cases js <;> exact ends_cons rfl _

theorem ends_writeMembers (ms : List (Option String × Json)) (rest : List Char) :
    Ends (writeMembers ms rest) := by
  cases ms <;> exact ends_cons rfl _

variable {c : Char} {cs rest : List Char} {t : Token}

theorem lex_of_token? (hspace : isSpace c = false) (h : token? (c :: cs) = some (t, rest)) :
    lex (c :: cs) = (lex rest).map (t :: ·) := by
  rw [lex, if_neg (Bool.eq_false_iff.1 hspace)]
  split
  · rename_i r hr
    obtain rfl : r = (t, rest) := Option.some.inj (hr.symm.trans h)
    rfl
  · rename_i hnone
    cases hnone.symm.trans h

theorem lex_sign (h : sign? c = some t) (rest : List Char) :
    lex (c :: rest) = (lex rest).map (t :: ·) := by
  have hspace : isSpace c = false := by
    cases hc : isSpace c with
    | false => rfl
    | true =>
        simp only [isSpace, Bool.or_eq_true, beq_iff_eq] at hc
        rcases hc with ((rfl | rfl) | rfl) | rfl
        all_goals cases h
  exact lex_of_token? hspace (by rw [token?, h])

theorem lex_writeString (s : Option String) (rest : List Char) :
    lex (writeString s rest) = (lex rest).map (.string s :: ·) := by
  obtain ⟨pieces, hscan, hjoin⟩ := scanString_quoted s rest
  have htoken : token? ('"' :: (quoted s ++ '"' :: rest)) = some (.string s, rest) := by
    have hsign : sign? '"' = none := rfl
    rw [token?, hsign]
    simp only [if_true, hscan, Option.map_some, hjoin]
  exact lex_of_token? rfl htoken

theorem ne_of_isNumberChar (h : isNumberChar c = true) {d : Char} (hd : isNumberChar d = false) :
    c ≠ d := by
  rintro rfl
  cases h.symm.trans hd

theorem not_isSpace_of_isNumberChar (h : isNumberChar c = true) : isSpace c = false := by
  have hne {d : Char} (hd : isNumberChar d = false) : (c == d) = false :=
    beq_eq_false_iff_ne.2 (ne_of_isNumberChar h hd)
  rw [isSpace, hne rfl, hne rfl, hne rfl, hne rfl]
  rfl

theorem sign?_of_isNumberChar (h : isNumberChar c = true) : sign? c = none := by
  have hne {d : Char} (hd : isNumberChar d = false) : c ≠ d := ne_of_isNumberChar h hd
  rw [sign?, if_neg (hne rfl), if_neg (hne rfl), if_neg (hne rfl), if_neg (hne rfl),
    if_neg (hne rfl), if_neg (hne rfl)]

theorem takeWhile_append_of_ends (h : ∀ c ∈ cs, isNumberChar c = true) (hends : Ends rest) :
    (cs ++ rest).takeWhile isNumberChar = cs ∧ (cs ++ rest).dropWhile isNumberChar = rest := by
  rw [List.takeWhile_append_of_pos h, List.dropWhile_append_of_pos h]
  cases rest with
  | nil => exact ⟨List.append_nil cs, rfl⟩
  | cons d rest =>
      have hd := Bool.eq_false_iff.1 (hends d rfl)
      rw [List.takeWhile_cons_of_neg hd, List.dropWhile_cons_of_neg hd]
      exact ⟨List.append_nil cs, rfl⟩

theorem lex_number {lexeme : String} (h : IsLexeme lexeme) (hends : Ends rest) :
    lex (lexeme.toList ++ rest) = (lex rest).map (.number lexeme :: ·) := by
  -- the first character picks the branch, the others are taken up to the end of the literal
  obtain ⟨hnumber, hchars⟩ := h
  cases hcs : lexeme.toList with
  | nil =>
      rw [hcs] at hnumber
      cases hnumber
  | cons c cs =>
      rw [hcs] at hnumber hchars
      obtain ⟨hc, hcs'⟩ := List.forall_mem_cons.1 hchars
      obtain ⟨htake, hdrop⟩ := takeWhile_append_of_ends hcs' hends
      have hlexeme : String.ofList (c :: cs) = lexeme := by rw [← hcs, String.ofList_toList]
      have htoken : token? (c :: (cs ++ rest)) = some (.number lexeme, rest) := by
        rw [token?, sign?_of_isNumberChar hc]
        simp only [if_neg (ne_of_isNumberChar hc (d := '"') rfl), if_pos hc, htake, hdrop, hnumber,
          if_true, hlexeme]
      exact lex_of_token? (not_isSpace_of_isNumberChar hc) htoken

end Lexing

def Lexes (j : Json) : Prop :=
  ∀ rest, Ends rest → lex (write j rest) = (lex rest).map (tokens j)

theorem lex_writeItems {js : List Json} (h : ∀ j ∈ js, Lexes j) (rest : List Char) :
    lex (writeItems js rest) = (lex rest).map (itemTokens js) := by
  induction js with
  | nil => exact lex_sign rfl rest
  | cons j js ih =>
      obtain ⟨hj, hjs⟩ := List.forall_mem_cons.1 h
      rw [writeItems, lex_sign rfl, hj _ (ends_writeItems js rest), ih hjs, Option.map_map,
        Option.map_map]
      rfl

theorem lex_writeMember (k : Option String) {j : Json} (h : Lexes j) {rest : List Char}
    (hends : Ends rest) : lex (writeString k (':' :: write j rest)) =
      (lex rest).map fun ts => .string k :: .colon :: tokens j ts := by
  rw [lex_writeString, lex_sign rfl, h rest hends, Option.map_map, Option.map_map]
  rfl

theorem lex_writeMembers {ms : List (Option String × Json)} (h : ∀ m ∈ ms, Lexes m.2)
    (rest : List Char) : lex (writeMembers ms rest) = (lex rest).map (memberTokens ms) := by
  induction ms with
  | nil => exact lex_sign rfl rest
  | cons m ms ih =>
      obtain ⟨hm, hms⟩ := List.forall_mem_cons.1 h
      rw [writeMembers, lex_sign rfl, lex_writeMember m.1 hm (ends_writeMembers ms rest), ih hms,
        Option.map_map, Option.map_map]
      rfl

theorem lexes_array {items : List Json} (h : ∀ j ∈ items, Lexes j) : Lexes (.array items) := by
  intro rest _
  cases items with
  | nil =>
      rw [write, lex_sign rfl, lex_sign rfl, Option.map_map]
      rfl
  | cons j js =>
      obtain ⟨hj, hjs⟩ := List.forall_mem_cons.1 h
      rw [write, lex_sign rfl, hj _ (ends_writeItems js rest), lex_writeItems hjs, Option.map_map,
        Option.map_map]
      rfl

theorem lexes_object {members : List (Option String × Json)} (h : ∀ m ∈ members, Lexes m.2) :
    Lexes (.object members) := by
  intro rest _
  cases members with
  | nil =>
      rw [write, lex_sign rfl, lex_sign rfl, Option.map_map]
      rfl
  | cons m ms =>
      obtain ⟨hm, hms⟩ := List.forall_mem_cons.1 h
      rw [write, lex_sign rfl, lex_writeMember m.1 hm (ends_writeMembers ms rest),
        lex_writeMembers hms, Option.map_map, Option.map_map]
      rfl

theorem Plain.lexes {j : Json} (h : Plain j) : Lexes j := by
  induction h with
  | null => exact fun _ _ => lex_of_token? rfl rfl
  | bool b => cases b <;> exact fun _ _ => lex_of_token? rfl rfl
  | number h => exact fun _ hends => lex_number h hends
  | string s => exact fun rest _ => lex_writeString s rest
  | array _ ih => exact lexes_array ih
  | object _ ih => exact lexes_object ih

section Steps

variable {n : Nat} {ts rest rest' : List Token} {j : Json} {k : Option String}

theorem itemsOf_last (h : valueOf n ts = some (j, .rightBracket :: rest)) :
    itemsOf (n + 1) ts = some ([j], rest) := by
  rw [itemsOf, h]

theorem itemsOf_more {js : List Json} (h : valueOf n ts = some (j, .comma :: rest))
    (hrest : itemsOf n rest = some (js, rest')) : itemsOf (n + 1) ts = some (j :: js, rest') := by
  rw [itemsOf, h]
  exact congrArg (Option.map _) hrest

theorem membersOf_last (h : valueOf n ts = some (j, .rightBrace :: rest)) :
    membersOf (n + 1) (.string k :: .colon :: ts) = some ([(k, j)], rest) := by
  rw [membersOf, h]

theorem membersOf_more {ms : List (Option String × Json)}
    (h : valueOf n ts = some (j, .comma :: rest)) (hrest : membersOf n rest = some (ms, rest')) :
    membersOf (n + 1) (.string k :: .colon :: ts) = some ((k, j) :: ms, rest') := by
  rw [membersOf, h]
  exact congrArg (Option.map _) hrest

end Steps

structure Reads (j : Json) : Prop where
  longer : ∀ rest, rest.length < (tokens j rest).length
  read : ∀ fuel rest, 2 * (tokens j rest).length ≤ fuel + 1 + 2 * rest.length →
    valueOf fuel (tokens j rest) = some (j, rest)

theorem length_lt_itemTokens {js : List Json} (h : ∀ j ∈ js, Reads j) (rest : List Token) :
    rest.length < (itemTokens js rest).length := by
  induction js with
  | nil => exact Nat.lt_succ_self _
  | cons j js ih =>
      obtain ⟨hj, hjs⟩ := List.forall_mem_cons.1 h
      have hfirst := hj.longer (itemTokens js rest)
      have hmore := ih hjs
      rw [itemTokens, List.length_cons]
      omega

theorem length_lt_memberTokens {ms : List (Option String × Json)} (h : ∀ m ∈ ms, Reads m.2)
    (rest : List Token) : rest.length < (memberTokens ms rest).length := by
  induction ms with
  | nil => exact Nat.lt_succ_self _
  | cons m ms ih =>
      obtain ⟨hm, hms⟩ := List.forall_mem_cons.1 h
      have hfirst := hm.longer (memberTokens ms rest)
      have hmore := ih hms
      rw [memberTokens, List.length_cons, List.length_cons, List.length_cons]
      omega

theorem itemsOf_tokens {j : Json} {js : List Json} (hj : Reads j) (hjs : ∀ j ∈ js, Reads j)
    {fuel : Nat} {rest : List Token}
    (hfuel : 2 * (tokens j (itemTokens js rest)).length ≤ fuel + 2 * rest.length) :
    itemsOf fuel (tokens j (itemTokens js rest)) = some (j :: js, rest) := by
  -- each item and each comma is a token at least, and pays for the two calls made for it
  induction js generalizing j fuel with
  | nil =>
      have hfirst := hj.longer (itemTokens [] rest)
      have hend := length_lt_itemTokens hjs rest
      obtain ⟨n, rfl⟩ := Nat.exists_eq_add_one.2 (by omega : 0 < fuel)
      exact itemsOf_last (hj.read n (itemTokens [] rest) (by omega))
  | cons i js ih =>
      have hfirst := hj.longer (itemTokens (i :: js) rest)
      have hend := length_lt_itemTokens hjs rest
      have hcomma : (itemTokens (i :: js) rest).length =
          (tokens i (itemTokens js rest)).length + 1 := rfl
      obtain ⟨n, rfl⟩ := Nat.exists_eq_add_one.2 (by omega : 0 < fuel)
      obtain ⟨hi, hjs⟩ := List.forall_mem_cons.1 hjs
      have hread := hj.read n (itemTokens (i :: js) rest) (by omega)
      exact itemsOf_more hread (ih hi hjs (by omega))

theorem membersOf_tokens {k : Option String} {j : Json} {ms : List (Option String × Json)}
    (hj : Reads j) (hms : ∀ m ∈ ms, Reads m.2) {fuel : Nat} {rest : List Token}
    (hfuel : 2 * (tokens j (memberTokens ms rest)).length ≤ fuel + 2 * rest.length) :
    membersOf fuel (.string k :: .colon :: tokens j (memberTokens ms rest)) =
      some ((k, j) :: ms, rest) := by
  induction ms generalizing k j fuel with
  | nil =>
      have hfirst := hj.longer (memberTokens [] rest)
      have hend := length_lt_memberTokens hms rest
      obtain ⟨n, rfl⟩ := Nat.exists_eq_add_one.2 (by omega : 0 < fuel)
      exact membersOf_last (hj.read n (memberTokens [] rest) (by omega))
  | cons m ms ih =>
      have hfirst := hj.longer (memberTokens (m :: ms) rest)
      have hend := length_lt_memberTokens hms rest
      have hcomma : (memberTokens (m :: ms) rest).length =
          (tokens m.2 (memberTokens ms rest)).length + 3 := rfl
      obtain ⟨n, rfl⟩ := Nat.exists_eq_add_one.2 (by omega : 0 < fuel)
      obtain ⟨hm, hms⟩ := List.forall_mem_cons.1 hms
      have hread := hj.read n (memberTokens (m :: ms) rest) (by omega)
      exact membersOf_more hread (ih hm hms (by omega))

theorem tokens_ne_rightBracket (j : Json) (rest ts : List Token) :
    tokens j rest ≠ .rightBracket :: ts := by
  intro h
  cases j with
  | array items => cases items <;> cases h
  | object members => cases members <;> cases h
  | _ => cases h

theorem reads_array {items : List Json} (h : ∀ j ∈ items, Reads j) : Reads (.array items) := by
  cases items with
  | nil =>
      refine ⟨fun rest => Nat.lt_succ_of_lt (Nat.lt_succ_self _), fun fuel rest hfuel => ?_⟩
      rw [tokens, List.length_cons, List.length_cons] at hfuel
      obtain ⟨n, rfl⟩ := Nat.exists_eq_add_one.2 (by omega : 0 < fuel)
      rfl
  | cons j js =>
      obtain ⟨hj, hjs⟩ := List.forall_mem_cons.1 h
      constructor
      case longer =>
        intro rest
        have hfirst := hj.longer (itemTokens js rest)
        have hend := length_lt_itemTokens hjs rest
        rw [tokens, List.length_cons]
        omega
      case read =>
        intro fuel rest hfuel
        have hfirst := hj.longer (itemTokens js rest)
        have hend := length_lt_itemTokens hjs rest
        rw [tokens, List.length_cons] at hfuel
        obtain ⟨n, rfl⟩ := Nat.exists_eq_add_one.2 (by omega : 0 < fuel)
        rw [tokens, valueOf, itemsOf_tokens hj hjs (by omega)]
        · rfl
        · exact tokens_ne_rightBracket j _

theorem reads_object {members : List (Option String × Json)} (h : ∀ m ∈ members, Reads m.2) :
    Reads (.object members) := by
  cases members with
  | nil =>
      refine ⟨fun rest => Nat.lt_succ_of_lt (Nat.lt_succ_self _), fun fuel rest hfuel => ?_⟩
      rw [tokens, List.length_cons, List.length_cons] at hfuel
      obtain ⟨n, rfl⟩ := Nat.exists_eq_add_one.2 (by omega : 0 < fuel)
      rfl
  | cons m ms =>
      obtain ⟨hm, hms⟩ := List.forall_mem_cons.1 h
      constructor
      case longer =>
        intro rest
        have hfirst := hm.longer (memberTokens ms rest)
        have hend := length_lt_memberTokens hms rest
        rw [tokens, List.length_cons, List.length_cons, List.length_cons]
        omega
      case read =>
        intro fuel rest hfuel
        have hfirst := hm.longer (memberTokens ms rest)
        have hend := length_lt_memberTokens hms rest
        rw [tokens, List.length_cons, List.length_cons, List.length_cons] at hfuel
        obtain ⟨n, rfl⟩ := Nat.exists_eq_add_one.2 (by omega : 0 < fuel)
        rw [tokens, valueOf, membersOf_tokens hm hms (by omega)]
        · rfl
        · intro ts hts
          cases hts

theorem Plain.reads {j : Json} (h : Plain j) : Reads j := by
  induction h with
  | null | bool b | number h | string s =>
      refine ⟨fun rest => Nat.lt_succ_self _, fun fuel rest hfuel => ?_⟩
      rw [tokens, List.length_cons] at hfuel
      obtain ⟨n, rfl⟩ := Nat.exists_eq_add_one.2 (by omega : 0 < fuel)
      rfl
  | array _ ih => exact reads_array ih
  | object _ ih => exact reads_object ih

theorem read?_print {j : Json} (h : Plain j) : read? j.print = some j := by
  have hlex : lex (j.write []) = some (tokens j []) := by
    rw [h.lexes [] ends_nil, lex]
    rfl
  have hvalue : valueOf (fuelFor (tokens j [])) (tokens j []) = some (j, []) :=
    h.reads.read _ [] (by rw [fuelFor]; omega)
  rw [read?, print, String.toList_ofList, hlex, Option.bind_some, ofTokens?, hvalue]

end VectorMachine.Json
