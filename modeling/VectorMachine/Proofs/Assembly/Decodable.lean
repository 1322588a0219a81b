import VectorMachine.Proofs.Assembly.Diagnostics
import VectorMachine.Proofs.Instruction.Tokens
import VectorMachine.Proofs.Processor.DecodeFaults
import VectorMachine.Proofs.Processor.Requests

namespace VectorMachine

theorem exists_error_of_mapM {ε α β : Type} {f : α → Except ε β} {xs : List α} {e : ε}
    (h : xs.mapM f = .error e) : ∃ (k : Nat) (x : α), xs[k]? = some x ∧ f x = .error e := by
  induction xs with
  | nil => cases h
  | cons x xs ih =>
      rw [List.mapM_cons] at h
      cases hx : f x with
      | error e' =>
          rw [hx] at h
          cases h
          exact ⟨0, x, rfl, hx⟩
      | ok y =>
          cases hxs : xs.mapM f with
          | error e' =>
              rw [hx, hxs] at h
              cases h
              obtain ⟨k, z, hk, hz⟩ := ih hxs
              exact ⟨k + 1, z, hk, hz⟩
          | ok ys =>
              rw [hx, hxs] at h
              cases h

namespace Operand

theorem readVectorOp_eq_error_iff {token : String} {e : DecodeError} :
    readVectorOp token = .error e ↔
      (∀ op : VectorOp, ¬ Spells token op.name) ∧ e = .unknownVectorOp token := by
  rw [← VectorOp.ofName?_eq_none_iff, readVectorOp]
  cases VectorOp.ofName? token <;> simp [eq_comm]

end Operand

namespace Instruction

theorem readOperands_eq_error {op : Opcode} {args : List String} {e : DecodeError}
    (h : readOperands op args = .error e) :
    (op = .gexec ∧ ∃ token, args[0]? = some token ∧ Operand.readVectorOp token = .error e) ∨
      ∃ k token, args[k]? = some token ∧ ¬ (op = .gexec ∧ k = 0) ∧
        Operand.read token = .error e := by
  by_cases hop : op = .gexec
  · subst hop
    cases args with
    | nil => cases h
    | cons first rest =>
        rw [readOperands] at h
        cases hfirst : Operand.readVectorOp first with
        | error e' =>
            rw [hfirst] at h
            cases h
            exact .inl ⟨rfl, first, rfl, hfirst⟩
        | ok o =>
            cases hrest : rest.mapM Operand.read with
            | error e' =>
                rw [hfirst, hrest] at h
                cases h
                obtain ⟨k, token, hk, htoken⟩ := exists_error_of_mapM hrest
                exact .inr ⟨k + 1, token, hk, by simp, htoken⟩
            | ok others =>
                rw [hfirst, hrest] at h
                cases h
  · rw [readOperands_of_ne hop] at h
    obtain ⟨k, token, hk, htoken⟩ := exists_error_of_mapM h
    exact .inr ⟨k, token, hk, fun hg => hop hg.1, htoken⟩

end Instruction

namespace Assembly

open Instruction (tokens separates decode)

/-- What an admitted text is read as: an instruction, unless an operand other than a jump target is
a malformed literal, or the text has no token at all. -/
inductive Reads (text : String) : Except DecodeError Instruction → Prop where
  | instruction (i : Instruction) : Reads text (.ok i)
  | literal {mnemonic token : String} {args : List String} {op : Opcode} {k : Nat}
      (ht : tokens text = mnemonic :: args) (hop : Spells mnemonic op.mnemonic)
      (hk : args[k]? = some token) (htarget : ¬ (op.controlTransfer = true ∧ k = 0))
      (hmalformed : Token.Malformed token) : Reads text (.error (.invalidOperand token))
  | blank (h : ∀ c ∈ text.toList, separates c = true) : Reads text (.error .empty)

section Admitted

variable {source : String} {p : Program}

theorem assemble_eq_ok_iff : assemble source = .ok p ↔
    (∀ o, ¬ Occurs source o) ∧ p = link (definitionsOf source) (linesOf source) := by
  rw [assemble_eq]
  constructor
  · intro h
    split at h
    · rename_i hnil
      refine ⟨fun o ho => ?_, by simpa [eq_comm] using h⟩
      rw [← mem_occurrences_iff, List.map_eq_nil_iff.1 hnil] at ho
      cases ho
    · cases h
  · rintro ⟨hclean, rfl⟩
    have hnil : occurrences source = [] :=
      List.eq_nil_iff_forall_not_mem.2 fun o ho => hclean o (mem_occurrences_iff.1 ho)
    rw [hnil]
    rfl

theorem exists_instructs_of_link {n : Nat} {text : String}
    (h : (link (definitionsOf source) (linesOf source)).instruction? n = some text) :
    ∃ m, Instructs source m text := by
  simp only [link, Program.ofParts, Program.instruction?, List.getElem?_toArray] at h
  have hmem := List.mem_of_getElem? h
  simp only [List.mem_map, List.mem_filterMap, Option.map_eq_some_iff] at hmem
  obtain ⟨_, ⟨l, hl, body, hbody, rfl⟩, rfl⟩ := hmem
  exact ⟨l.number, instructs_iff.2 ⟨l, hl, rfl, by simp [Line.text, hbody]⟩⟩

theorem accepts_of_invokes (hclean : ∀ o, ¬ Occurs source o) {m : Nat} {op : Opcode}
    {args : List String} (hinv : Invokes source m op args) :
    op.arity.accepts args.length = true := by
  cases hcount : op.arity.accepts args.length with
  | true => rfl
  | false => exact absurd (.operandCount hinv hcount) (hclean _)

theorem reads_error (hclean : ∀ o, ¬ Occurs source o) {m : Nat} {text mnemonic : String}
    {args : List String} {op : Opcode} {e : DecodeError} (ht : tokens text = mnemonic :: args)
    (hop : Spells mnemonic op.mnemonic) (hinv : Invokes source m op args)
    (h : Instruction.readOperands op args = .error e) : Reads text (.error e) := by
  rcases Instruction.readOperands_eq_error h with
    ⟨rfl, token, hk, hvector⟩ | ⟨k, token, hk, hg, hread⟩
  · obtain ⟨hno, rfl⟩ := Operand.readVectorOp_eq_error_iff.1 hvector
    exact absurd (.unknownVectorOp hinv hk hno) (hclean _)
  · cases Operand.readAs_of_read hread with
    | noRegister hreg hbound =>
        exact absurd (.invalidRegister hinv hk hg hreg hbound) (hclean _)
    | malformed hmalformed =>
        refine .literal ht hop hk ?_ hmalformed
        rintro ⟨htarget, rfl⟩
        obtain ⟨hreg, hint, hid⟩ := hmalformed
        exact hclean _
          (.undefinedLabel hinv htarget hk hreg hint (not_labels_of_not_isIdentifier hid))

theorem reads_of_assemble (h : assemble source = .ok p) {n : Nat} {text : String}
    (ht : p.instruction? n = some text) : Reads text (decode text) := by
  obtain ⟨hclean, rfl⟩ := assemble_eq_ok_iff.1 h
  obtain ⟨m, hm⟩ := exists_instructs_of_link ht
  cases htokens : tokens text with
  | nil =>
      rw [decode, htokens]
      exact .blank (Instruction.tokens_eq_nil_iff.1 htokens)
  | cons mnemonic args =>
      cases hop : Opcode.ofMnemonic? mnemonic with
      | none =>
          exact absurd (.unknownInstruction hm htokens (Opcode.ofMnemonic?_eq_none_iff.1 hop))
            (hclean _)
      | some op =>
          have hspells := Opcode.ofMnemonic?_eq_some_iff.1 hop
          have hinv : Invokes source m op args := ⟨text, mnemonic, hm, htokens, hspells⟩
          have hcount := accepts_of_invokes hclean hinv
          rw [Instruction.decode_of_tokens htokens hop, if_pos hcount]
          cases hos : Instruction.readOperands op args with
          | ok os => exact .instruction _
          | error e => exact reads_error hclean htokens hspells hinv hos

theorem decode_of_assemble (h : assemble source = .ok p) :
    (∀ n text, p.instruction? n = some text → Reads text (decode text)) ∧
      ∀ q : Processor, q.Reachable → q.program = p → ∀ pace e,
        (q.advance pace).result = .faulted (.undecodable e) →
          ∃ text, p.instruction? q.pc = some text ∧ Reads text (.error e) := by
  constructor
  · intro n text ht
    exact reads_of_assemble h ht
  · rintro q hq rfl pace e hfault
    obtain ⟨text, ht, hd⟩ := Processor.undecodable_at_hand hq.flightFits hfault
    exact ⟨text, ht, hd ▸ reads_of_assemble h ht⟩

def misspelt : Program :=
  .ofParts ["MOV R1, 1x"] (NameMap.empty.insertNew "start" 0) [1]

theorem decode_of_assemble_misspelt : assemble "start: MOV R1, 1x" = .ok misspelt ∧
    Reads "MOV R1, 1x" (.error (.invalidOperand "1x")) ∧
    (((Processor.new {}).load misspelt).1.advance .whole).result =
      .faulted (.undecodable (.invalidOperand "1x")) := by
  have h : assemble "start: MOV R1, 1x" = .ok misspelt := rfl
  have hfault : (((Processor.new {}).load misspelt).1.advance .whole).result =
      .faulted (.undecodable (.invalidOperand "1x")) := by decide +kernel
  have hreach : ((Processor.new {}).load misspelt).1.Reachable := ⟨{}, [.load misspelt], rfl⟩
  obtain ⟨text, ht, hreads⟩ := (decode_of_assemble h).2 _ hreach rfl .whole _ hfault
  obtain rfl : "MOV R1, 1x" = text := Option.some.inj ht
  exact ⟨h, hreads, hfault⟩

theorem decode_of_separators : ¬ ∀ source p n text, assemble source = .ok p →
    p.instruction? n = some text →
      (∃ i, decode text = .ok i) ∨ ∃ token, decode text = .error (.invalidOperand token) := by
  intro hall
  have h := hall "," (.ofParts [","] .empty [1]) 0 "," rfl rfl
  have hempty : decode "," = .error .empty := rfl
  simp [hempty] at h

end Admitted

end Assembly

end VectorMachine
