import VectorMachine.Instruction.Decode
import VectorMachine.Proofs.Text.Fields
import VectorMachine.Proofs.Token.Literal

namespace VectorMachine

def Token.isWordChar (c : Char) : Bool :=
  c.isAlphanum || c == '_' || c == '-'

theorem Token.isWordChar_of_isDigit {c : Char} (h : c.isDigit = true) : isWordChar c = true := by
  simp [isWordChar, Char.isAlphanum, h]

theorem Token.isWordChar_of_isAlpha {c : Char} (h : c.isAlpha = true) : isWordChar c = true := by
  simp [isWordChar, Char.isAlphanum, h]

theorem Token.isWordChar_of_isIdentifier {cs : List Char} (h : isIdentifier cs = true) :
    ∀ c ∈ cs, isWordChar c = true := by
  cases cs with
  | nil => cases h
  | cons c cs =>
      simp only [isIdentifier, Bool.and_eq_true, Bool.or_eq_true, List.all_eq_true] at h
      obtain ⟨hc, hcs⟩ := h
      rw [List.forall_mem_cons]
      constructor
      · rcases hc with hc | hc
        · exact isWordChar_of_isAlpha hc
        · rw [isWordChar, hc, Bool.or_true, Bool.true_or]
      · intro d hd
        rw [isWordChar, Bool.or_eq_true, Bool.or_eq_true]
        exact .inl (hcs d hd)

namespace Instruction

theorem not_separates_of_isWordChar {c : Char} (h : Token.isWordChar c = true) :
    separates c = false := by
  have hc : (48 ≤ c.toNat ∧ c.toNat ≤ 57) ∨ (65 ≤ c.toNat ∧ c.toNat ≤ 90) ∨
      (97 ≤ c.toNat ∧ c.toNat ≤ 122) ∨ c.toNat = 95 ∨ c.toNat = 45 := by
    simp only [Token.isWordChar, Char.isAlphanum, Token.isAlpha_eq, Char.isDigit,
       Bool.or_eq_true, Bool.and_eq_true, decide_eq_true_eq, beq_iff_eq,
      UInt32.le_iff_toNat_le] at h
    rcases h with (((h | h) | h) | rfl) | rfl
    · exact .inr (.inl h)
    · exact .inr (.inr (.inl h))
    · exact .inl h
    · exact .inr (.inr (.inr (.inl rfl)))
    · exact .inr (.inr (.inr (.inr rfl)))
  have hcomma : c ≠ ',' := by
    intro he
    rw [he] at h
    cases h
  simp [separates, hcomma, Text.isBlank, Text.blankRanges]
  omega

def Whole (text : String) : Prop :=
  text.toList ≠ [] ∧ ∀ c ∈ text.toList, separates c = false

theorem fields_of_whole {text : String} (h : Whole text) :
    Text.fields separates text.toList = [text.toList] :=
  Text.fields_eq_singleton h.1 h.2

theorem whole_of_all {text : String} (hne : text.toList ≠ [])
    (h : text.toList.all Token.isWordChar = true) : Whole text :=
  ⟨hne, fun c hc => not_separates_of_isWordChar (List.all_eq_true.1 h c hc)⟩

theorem tokens_eq_nil_iff {text : String} :
    tokens text = [] ↔ ∀ c ∈ text.toList, separates c = true := by
  rw [tokens, List.map_eq_nil_iff, Text.fields_eq_nil_iff]

theorem fields_cons {c : Char} (h : separates c = true) (cs : List Char) :
    Text.fields separates (c :: cs) = Text.fields separates cs :=
  Text.fields_append_cons h [] cs

theorem fields_intercalate {texts : List String} (h : ∀ t ∈ texts, Whole t) :
    Text.fields separates (String.intercalate ", " texts).toList = texts.map String.toList := by
  induction texts with
  | nil => rfl
  | cons t ts ih =>
      have ht := fields_of_whole (h t List.mem_cons_self)
      have hts := ih fun u hu => h u (List.mem_cons_of_mem t hu)
      cases ts with
      | nil => simpa using ht
      | cons u us =>
          have hcs : (String.intercalate ", " (t :: u :: us)).toList =
              t.toList ++ ',' :: ' ' :: (String.intercalate ", " (u :: us)).toList := by
            simp [String.intercalate_cons_cons]
          rw [hcs, Text.fields_append_cons (by decide), fields_cons (by decide), ht, hts]
          rfl

theorem all_isWordChar_mnemonic (op : Opcode) : op.mnemonic.toList.all Token.isWordChar = true := by
  cases op with
  | alu a => cases a <;> decide
  | jumpIf c => cases c <;> decide
  | _ => decide

theorem all_isWordChar_name (op : VectorOp) : op.name.toList.all Token.isWordChar = true := by
  cases op <;> decide

theorem whole_mnemonic (op : Opcode) : Whole op.mnemonic := by
  refine whole_of_all ?_ (all_isWordChar_mnemonic op)
  cases op with
  | alu a => cases a <;> decide
  | jumpIf c => cases c <;> decide
  | _ => decide

theorem tokens_text {i : Instruction} (h : ∀ o ∈ i.operands, Whole o.text) :
    tokens i.text = i.opcode.mnemonic :: i.operands.map Operand.text := by
  have hm := fields_of_whole (whole_mnemonic i.opcode)
  have hos : ∀ t ∈ i.operands.map Operand.text, Whole t := by
    intro t ht
    obtain ⟨o, ho, rfl⟩ := List.mem_map.1 ht
    exact h o ho
  unfold text tokens
  split
  · rename_i hnil
    rw [hm]
    simp [hnil]
  · have hcs : (i.opcode.mnemonic ++ " " ++
        String.intercalate ", " (i.operands.map Operand.text)).toList =
        i.opcode.mnemonic.toList ++
          ' ' :: (String.intercalate ", " (i.operands.map Operand.text)).toList := by
      simp
    rw [hcs, Text.fields_append_cons (by decide), hm, fields_intercalate hos]
    simp

end Instruction

end VectorMachine
