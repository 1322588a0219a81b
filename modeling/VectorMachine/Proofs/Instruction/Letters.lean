import VectorMachine.Proofs.Assembly.Occurrence
import VectorMachine.Proofs.Instruction.Reading
import VectorMachine.Proofs.Instruction.Tokens

namespace VectorMachine

namespace Text

theorem isWordChar_of_hexDigit? {c : Char} {d : Nat} (h : hexDigit? c = some d) :
    Token.isWordChar c = true := by
  unfold hexDigit? at h
  split at h
  · rename_i hdigit
    exact Token.isWordChar_of_isDigit hdigit
  · apply Token.isWordChar_of_isAlpha
    rw [Token.isAlpha_eq]
    simp only [Char.le_def] at h
    grind

theorem isWordChar_of_hexFrom? {cs : List Char} {acc n : Nat} (h : hexFrom? acc cs = some n) :
    ∀ c ∈ cs, Token.isWordChar c = true := by
  induction cs generalizing acc with
  | nil => exact List.forall_mem_nil _
  | cons c cs ih =>
      obtain ⟨d, hd, hrest⟩ := Option.bind_eq_some_iff.1 h
      exact List.forall_mem_cons.2 ⟨isWordChar_of_hexDigit? hd, ih hrest⟩

theorem isWordChar_of_hexadecimal? {cs : List Char} {n : Nat} (h : hexadecimal? cs = some n) :
    ∀ c ∈ cs, Token.isWordChar c = true := by
  unfold hexadecimal? at h
  split at h
  · cases h
  · exact isWordChar_of_hexFrom? h

theorem isWordChar_of_decimal? {cs : List Char} {n : Nat} (h : decimal? cs = some n) :
    ∀ c ∈ cs, Token.isWordChar c = true := by
  unfold decimal? at h
  split at h
  · rename_i hdigits
    intro c hc
    exact Token.isWordChar_of_isDigit (List.all_eq_true.1 hdigits.2 c hc)
  · cases h

end Text

namespace Token

theorem isWordChar_of_magnitude? {cs : List Char} {n : Nat} (h : magnitude? cs = some n) :
    ∀ c ∈ cs, isWordChar c = true := by
  unfold magnitude? at h
  split at h
  · rw [List.forall_mem_cons, List.forall_mem_cons]
    exact ⟨rfl, rfl, Text.isWordChar_of_hexadecimal? h⟩
  · rw [List.forall_mem_cons, List.forall_mem_cons]
    exact ⟨rfl, rfl, Text.isWordChar_of_hexadecimal? h⟩
  · exact Text.isWordChar_of_decimal? h

theorem isWordChar_of_integer? {cs : List Char} {v : Int64} (h : integer? cs = some v) :
    ∀ c ∈ cs, isWordChar c = true := by
  unfold integer? at h
  split at h
  · obtain ⟨m, hm, -⟩ := Option.bind_eq_some_iff.1 h
    exact List.forall_mem_cons.2 ⟨rfl, isWordChar_of_magnitude? hm⟩
  · obtain ⟨m, hm, -⟩ := Option.bind_eq_some_iff.1 h
    exact isWordChar_of_magnitude? hm

theorem isWordChar_of_toUpper {c : Char} (h : isWordChar c.toUpper = true) :
    isWordChar c = true := by
  unfold Char.toUpper at h
  split at h
  · rename_i hlower
    apply isWordChar_of_isAlpha
    rw [isAlpha_eq]
    grind
  · exact h

end Token

def Worded (text : String) : Prop := ∀ c ∈ text.toList, Token.isWordChar c = true

theorem Spells.worded {token name : String} (h : Spells token name) (hname : Worded name) :
    Worded token := by
  intro c hc
  apply Token.isWordChar_of_toUpper
  apply hname
  rw [← h]
  exact List.mem_map_of_mem hc

theorem Opcode.worded_of_ofMnemonic? {token : String} {op : Opcode}
    (h : ofMnemonic? token = some op) : Worded token :=
  (ofMnemonic?_eq_some_iff.1 h).worded (List.all_eq_true.1 (Instruction.all_isWordChar_mnemonic op))

namespace Operand

theorem worded_of_readVectorOp {token : String} {o : Operand} (h : readVectorOp token = .ok o) :
    Worded token := by
  unfold readVectorOp at h
  split at h
  · rename_i op hop
    have hspells := List.find?_some hop
    rw [beq_iff_eq] at hspells
    exact Spells.worded hspells.symm (List.all_eq_true.1 (Instruction.all_isWordChar_name op))
  · cases h

theorem worded_of_read {token : String} {o : Operand} (h : read token = .ok o) : Worded token := by
  cases readAs_of_read h with
  | register hreg =>
      exact Token.isWordChar_of_isIdentifier (Token.isIdentifier_of_isRegisterName hreg)
  | immediate hreg hint => exact Token.isWordChar_of_integer? hint
  | label hreg hint hid => exact Token.isWordChar_of_isIdentifier hid

theorem worded_of_mapM_read {args : List String} {os : List Operand}
    (h : args.mapM read = .ok os) : ∀ token ∈ args, Worded token := by
  intro token htoken
  have hread : read token ∈ os.map Except.ok := by
    rw [← mapM_eq_ok_iff.1 h]
    exact List.mem_map_of_mem htoken
  obtain ⟨o, -, ho⟩ := List.mem_map.1 hread
  exact worded_of_read ho.symm

end Operand

namespace Instruction

theorem worded_of_readOperands {op : Opcode} {args : List String} {os : List Operand}
    (hcount : op.arity.accepts args.length = true) (h : readOperands op args = .ok os) :
    ∀ token ∈ args, Worded token := by
  by_cases hop : op = .gexec
  · subst hop
    cases args with
    | nil => cases hcount
    | cons first rest =>
        obtain ⟨o, others, -, ho, hothers⟩ := readOperands_gexec_cons.1 h
        rw [List.forall_mem_cons]
        exact ⟨Operand.worded_of_readVectorOp ho, Operand.worded_of_mapM_read hothers⟩
  · rw [readOperands_of_ne hop] at h
    exact Operand.worded_of_mapM_read h

theorem worded_tokens {text : String} {i : Instruction} (h : decode text = .ok i) :
    ∀ token ∈ tokens text, Worded token := by
  obtain ⟨mnemonic, args, htokens, hop, hcount, hos⟩ := exists_tokens_of_decode h
  rw [htokens, List.forall_mem_cons]
  exact ⟨Opcode.worded_of_ofMnemonic? hop, worded_of_readOperands hcount hos⟩

theorem separates_or_isWordChar {text : String} {i : Instruction} (h : decode text = .ok i) :
    ∀ c ∈ text.toList, separates c = true ∨ Token.isWordChar c = true := by
  intro c hc
  cases hsep : separates c with
  | true => exact .inl rfl
  | false =>
      have hfield : c ∈ (Text.fields separates text.toList).flatten := by
        rw [Text.flatten_fields, List.mem_filter, hsep]
        exact ⟨hc, rfl⟩
      obtain ⟨field, hmem, hcf⟩ := List.mem_flatten.1 hfield
      have hworded := worded_tokens h _ (List.mem_map_of_mem hmem)
      exact .inr (hworded c (by rwa [String.toList_ofList]))

end Instruction

end VectorMachine
