import VectorMachine.Proofs.Instruction.Reading
import VectorMachine.Proofs.Instruction.Tokens

namespace VectorMachine

namespace Operand

theorem whole_text_register (r : Register) : Instruction.Whole r.text := by
  have hall : ∀ r : Register, r.text.toList ≠ [] ∧
      r.text.toList.all Token.isWordChar = true := by decide +kernel
  exact Instruction.whole_of_all (hall r).1 (hall r).2

theorem whole_text_int (n : Int) : Instruction.Whole (toString n) := by
  have hdigit {m : Nat} {c : Char} (hc : c ∈ Nat.toDigits 10 m) : Token.isWordChar c = true :=
    Token.isWordChar_of_isDigit (Token.isDigit_of_mem_toDigits hc)
  refine Instruction.whole_of_all ?_ ?_
  · rw [Token.toList_text_int]
    split
    · exact Nat.toDigits_ne_nil
    · exact List.cons_ne_nil _ _
  · rw [Token.toList_text_int, List.all_eq_true]
    intro c hc
    split at hc
    · exact hdigit hc
    · rcases List.mem_cons.1 hc with rfl | hc
      · rfl
      · exact hdigit hc

theorem whole_of_isIdentifier {name : String} (h : Token.isIdentifier name.toList = true) :
    Instruction.Whole name := by
  refine Instruction.whole_of_all ?_ (List.all_eq_true.2 (Token.isWordChar_of_isIdentifier h))
  intro hnil
  rw [hnil] at h
  cases h

theorem whole_text {o : Operand} (h : o.General) : Instruction.Whole o.text := by
  cases o with
  | register r => exact whole_text_register r
  | immediate v => exact whole_text_int v.toInt
  | label name => exact whole_of_isIdentifier h.1
  | vectorOp op => exact h.elim

theorem whole_text_vectorOp (op : VectorOp) : Instruction.Whole (Operand.vectorOp op).text := by
  refine Instruction.whole_of_all ?_ (Instruction.all_isWordChar_name op)
  cases op <;> decide

end Operand

namespace Instruction

structure WellFormed (i : Instruction) : Prop where
  count : i.opcode.arity.accepts i.operands.length = true
  vectorOp_iff : ∀ k, (∃ op, i.operand? k = some (.vectorOp op)) ↔ i.opcode = .gexec ∧ k = 0
  immediate : ∀ v, .immediate v ∈ i.operands → v ≠ Int64.minValue
  label : ∀ name, .label name ∈ i.operands →
    Token.isIdentifier name.toList = true ∧ Token.isRegisterName name.toList = false

inductive Proper : Opcode → List Operand → Prop where
  | launch {op : VectorOp} {os : List Operand} (h : ∀ o ∈ os, o.General) :
      Proper .gexec (.vectorOp op :: os)
  | general {op : Opcode} {os : List Operand} (hop : op ≠ .gexec) (h : ∀ o ∈ os, o.General) :
      Proper op os

theorem general_of_mapM_read {args : List String} {os : List Operand}
    (h : args.mapM Operand.read = .ok os) : ∀ o ∈ os, o.General := by
  intro o ho
  have hmem : Except.ok o ∈ args.map Operand.read := by
    rw [mapM_eq_ok_iff.1 h]
    exact List.mem_map_of_mem ho
  obtain ⟨token, -, htoken⟩ := List.mem_map.1 hmem
  exact Operand.general_of_read htoken

theorem length_of_mapM_read {args : List String} {os : List Operand}
    (h : args.mapM Operand.read = .ok os) : os.length = args.length := by
  simpa using (congrArg List.length (mapM_eq_ok_iff.1 h)).symm

theorem mapM_read_text {os : List Operand} (h : ∀ o ∈ os, o.General) :
    (os.map Operand.text).mapM Operand.read = .ok os := by
  rw [mapM_eq_ok_iff, List.map_map]
  exact List.map_congr_left fun o ho => Operand.read_text (h o ho)

theorem proper_of_readOperands {op : Opcode} {args : List String} {os : List Operand}
    (hcount : op.arity.accepts args.length = true) (h : readOperands op args = .ok os) :
    Proper op os ∧ os.length = args.length := by
  by_cases hop : op = .gexec
  · subst hop
    cases args with
    | nil => cases hcount
    | cons first rest =>
        obtain ⟨o, others, rfl, ho, hothers⟩ := readOperands_gexec_cons.1 h
        obtain ⟨v, rfl⟩ := Operand.eq_vectorOp_of_readVectorOp ho
        exact ⟨.launch (general_of_mapM_read hothers), by simp [length_of_mapM_read hothers]⟩
  · rw [readOperands_of_ne hop] at h
    exact ⟨.general hop (general_of_mapM_read h), length_of_mapM_read h⟩

theorem readOperands_text {op : Opcode} {os : List Operand} (h : Proper op os) :
    readOperands op (os.map Operand.text) = .ok os := by
  cases h with
  | launch h =>
      rename_i v others
      exact readOperands_gexec_cons.2
        ⟨.vectorOp v, others, rfl, Operand.readVectorOp_name v, mapM_read_text h⟩
  | general hop h => rw [readOperands_of_ne hop, mapM_read_text h]

theorem whole_of_proper {op : Opcode} {os : List Operand} (h : Proper op os) :
    ∀ o ∈ os, Whole o.text := by
  intro o ho
  cases h with
  | launch h =>
      rcases List.mem_cons.1 ho with rfl | ho
      · exact Operand.whole_text_vectorOp _
      · exact Operand.whole_text (h o ho)
  | general hop h => exact Operand.whole_text (h o ho)

theorem WellFormed.general {i : Instruction} (h : i.WellFormed) {k : Nat} {o : Operand}
    (ho : i.operand? k = some o) (hk : ¬ (i.opcode = .gexec ∧ k = 0)) : o.General := by
  have hmem : o ∈ i.operands := List.mem_of_getElem? ho
  cases o with
  | register r => trivial
  | immediate v => exact h.immediate v hmem
  | label name => exact h.label name hmem
  | vectorOp op => exact hk ((h.vectorOp_iff k).1 ⟨op, ho⟩)

theorem WellFormed.proper {i : Instruction} (h : i.WellFormed) : Proper i.opcode i.operands := by
  by_cases hop : i.opcode = .gexec
  · obtain ⟨v, hv⟩ := (h.vectorOp_iff 0).2 ⟨hop, rfl⟩
    obtain ⟨others, hos⟩ : ∃ others, i.operands = .vectorOp v :: others := by
      rw [operand?, ← List.head?_eq_getElem?] at hv
      exact List.head?_eq_some_iff.1 hv
    rw [hop, hos]
    refine .launch fun o ho => ?_
    obtain ⟨k, hk⟩ := List.getElem?_of_mem ho
    exact h.general (k := k + 1) (by simp [operand?, hos, hk]) (by simp)
  · refine .general hop fun o ho => ?_
    obtain ⟨k, hk⟩ := List.getElem?_of_mem ho
    exact h.general hk fun hg => hop hg.1

theorem wellFormed_of_proper {i : Instruction}
    (hcount : i.opcode.arity.accepts i.operands.length = true)
    (h : Proper i.opcode i.operands) : i.WellFormed := by
  obtain ⟨op, os⟩ := i
  cases h with
  | launch h =>
      rename_i v others
      refine ⟨hcount, fun k => ?_, fun n hn => ?_, fun name hname => ?_⟩
      · cases k with
        | zero => simp [operand?]
        | succ k =>
            have hnone : ∀ w, others[k]? ≠ some (.vectorOp w) := fun w hw =>
              h _ (List.mem_of_getElem? hw)
            simp [operand?, hnone]
      · exact h _ (by simpa using hn)
      · exact h _ (by simpa using hname)
  | general hop h =>
      refine ⟨hcount, fun k => ?_, fun n hn => h _ hn, fun name hname => h _ hname⟩
      have hnone : ∀ w, os[k]? ≠ some (.vectorOp w) := fun w hw => h _ (List.mem_of_getElem? hw)
      simp [operand?, hnone, hop]

theorem wellFormed_of_decode {text : String} {i : Instruction} (h : decode text = .ok i) :
    i.WellFormed := by
  obtain ⟨mnemonic, args, -, -, hcount, hos⟩ := exists_tokens_of_decode h
  obtain ⟨hproper, hlength⟩ := proper_of_readOperands hcount hos
  exact wellFormed_of_proper (hlength ▸ hcount) hproper

theorem decode_text_of_wellFormed {i : Instruction} (h : i.WellFormed) : decode i.text = .ok i := by
  have ht := tokens_text (whole_of_proper h.proper)
  rw [decode_of_tokens ht (Opcode.ofMnemonic?_mnemonic i.opcode), List.length_map, if_pos h.count,
    readOperands_text h.proper]
  rfl

theorem decode_text_inverse :
    (∀ text i, decode text = .ok i → decode i.text = .ok i) ∧
      ∀ i, decode i.text = .ok i ↔ i.WellFormed :=
  ⟨fun _ _ h => decode_text_of_wellFormed (wellFormed_of_decode h),
    fun _ => ⟨wellFormed_of_decode, decode_text_of_wellFormed⟩⟩

def scaling : Instruction :=
  ⟨.gexec,
    [.vectorOp .scale, .immediate 16, .register ⟨2, by decide⟩, .label "sum", .immediate (-7)]⟩

theorem decode_text_inverse_scaling :
    decode "gexec Scale,,0x10 r2\tsum , -07," = .ok scaling ∧
      scaling.text = "GEXEC SCALE, 16, R2, sum, -7" ∧
      decode "GEXEC SCALE, 16, R2, sum, -7" = .ok scaling ∧ scaling.WellFormed := by
  have h : decode "gexec Scale,,0x10 r2\tsum , -07," = .ok scaling := by rfl
  have htext : scaling.text = "GEXEC SCALE, 16, R2, sum, -7" := by decide +kernel
  have hback := decode_text_inverse.1 _ scaling h
  exact ⟨h, htext, htext ▸ hback, (decode_text_inverse.2 scaling).1 hback⟩

end Instruction

end VectorMachine
