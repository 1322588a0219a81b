import VectorMachine.Processor.Operand
import VectorMachine.Proofs.Assembly.Decodable
import VectorMachine.Proofs.Assembly.Linked

namespace VectorMachine.Assembly

open Instruction (tokens decode)

inductive Targets (p : Program) (token : String) : Operand → Prop where
  | register {r : Register} (hreg : Token.isRegisterName token.toList = true)
      (hr : Nat.ofDigitChars 10 token.toList.tail 0 = r.val) : Targets p token (.register r)
  | immediate {v : Int64} (hint : Token.integer? token.toList = some v) :
      Targets p token (.immediate v)
  | label {index : Nat} (hreg : Token.isRegisterName token.toList = false)
      (hl : p.label? token = some index) : Targets p token (.label token)

theorem target_label {p : Program} {name : String} {index : Nat} (hl : p.label? name = some index)
    {q : Processor} (hq : q.program = p) : q.target (.label name) = .ok index := by
  simp only [Processor.target, hq, hl]

theorem Targets.exists_target {p : Program} {token : String} {o : Operand} (h : Targets p token o)
    {q : Processor} (hq : q.program = p) : ∃ target, q.target o = .ok target := by
  cases h with
  | register hreg hr => exact ⟨_, rfl⟩
  | immediate hint => exact ⟨_, rfl⟩
  | label hreg hl => exact ⟨_, target_label hl hq⟩

section Transfer

variable {source : String} {p : Program} {n : Nat} {text mnemonic : String} {args : List String}
  {op : Opcode}

theorem exists_invokes (h : assemble source = .ok p) (ht : p.instruction? n = some text)
    (htokens : tokens text = mnemonic :: args) (hop : Spells mnemonic op.mnemonic) :
    ∃ m, Invokes source m op args := by
  obtain ⟨-, rfl⟩ := assemble_eq_ok_iff.1 h
  obtain ⟨m, hm⟩ := exists_instructs_of_link ht
  exact ⟨m, text, mnemonic, hm, htokens, hop⟩

theorem accepts_of_assemble (h : assemble source = .ok p) (ht : p.instruction? n = some text)
    (htokens : tokens text = mnemonic :: args) (hop : Spells mnemonic op.mnemonic) :
    op.arity.accepts args.length = true := by
  obtain ⟨m, hinv⟩ := exists_invokes h ht htokens hop
  exact accepts_of_invokes (assemble_eq_ok_iff.1 h).1 hinv

theorem decode_of_accepts (htokens : tokens text = mnemonic :: args)
    (hop : Spells mnemonic op.mnemonic) (hcount : op.arity.accepts args.length = true) :
    decode text = (Instruction.readOperands op args).map fun os => ⟨op, os⟩ := by
  rw [Instruction.decode_of_tokens htokens (Opcode.ofMnemonic?_eq_some_iff.2 hop), if_pos hcount]

theorem exists_targets (hclean : ∀ o, ¬ Occurs source o) {m : Nat} {token : String}
    (hinv : Invokes source m op [token]) (htransfer : op.controlTransfer = true)
    (hne : op ≠ .gexec) :
    ∃ o, Operand.read token = .ok o ∧
      Targets (link (definitionsOf source) (linesOf source)) token o := by
  cases hr : Operand.read token with
  | error e =>
      cases Operand.readAs_of_read hr with
      | noRegister hreg hbound =>
          exact absurd (.invalidRegister (k := 0) hinv rfl (fun hg => hne hg.1) hreg hbound)
            (hclean _)
      | malformed hmalformed =>
          obtain ⟨hreg, hint, hid⟩ := hmalformed
          exact absurd (.undefinedLabel hinv htransfer rfl hreg hint
            (not_labels_of_not_isIdentifier hid)) (hclean _)
  | ok o =>
      refine ⟨o, rfl, ?_⟩
      cases Operand.readAs_of_read hr with
      | register hreg hval => exact .register hreg hval
      | immediate hreg hint => exact .immediate hint
      | label hreg hint hid =>
          have hlabels : ∃ k, Labels source k token := by
            refine Classical.byContradiction fun hno => ?_
            exact hclean _ (.undefinedLabel hinv htransfer rfl hreg hint (not_exists.1 hno))
          obtain ⟨index, hindex⟩ := exists_label?_iff.2 hlabels
          exact .label hreg hindex

theorem targets_of_assemble (h : assemble source = .ok p) (ht : p.instruction? n = some text)
    (htokens : tokens text = mnemonic :: args) (hop : Spells mnemonic op.mnemonic)
    (htransfer : op.controlTransfer = true) :
    ∃ token o, args = [token] ∧ decode text = .ok ⟨op, [o]⟩ ∧ Targets p token o := by
  obtain ⟨m, hinv⟩ := exists_invokes h ht htokens hop
  have hcount := accepts_of_assemble h ht htokens hop
  obtain ⟨harity, hne⟩ : op.arity = .exactly 1 ∧ op ≠ .gexec := by
    cases op <;> first | exact ⟨rfl, Opcode.noConfusion⟩ | cases htransfer
  obtain ⟨token, rfl⟩ : ∃ token, args = [token] := by
    rw [harity, Arity.accepts, beq_iff_eq] at hcount
    exact List.length_eq_one_iff.1 hcount
  obtain ⟨hclean, rfl⟩ := assemble_eq_ok_iff.1 h
  obtain ⟨o, ho, htargets⟩ := exists_targets hclean hinv htransfer hne
  refine ⟨token, o, rfl, ?_, htargets⟩
  have hos : [token].mapM Operand.read = .ok [o] := by
    rw [mapM_eq_ok_iff, List.map_singleton, ho, List.map_singleton]
  rw [decode_of_accepts htokens hop hcount, Instruction.readOperands_of_ne hne, hos]
  rfl

theorem named_target_of_assemble (h : assemble source = .ok p) (ht : p.instruction? n = some text)
    (htokens : tokens text = mnemonic :: args) (hop : Spells mnemonic op.mnemonic)
    (htransfer : op.controlTransfer = true) {name : String} {index : Nat}
    (hname : args[0]? = some name) (hl : p.label? name = some index) :
    ∃ i, decode text = .ok i ∧ i.opcode = op ∧
      (Token.isRegisterName name.toList = false →
        ∀ q : Processor, q.program = p → i.targetAt q 0 = .ok index) ∧
      (Token.isRegisterName name.toList = true →
        ∃ r : Register, r.val = Nat.ofDigitChars 10 name.toList.tail 0 ∧
          ∀ q : Processor, q.program = p → i.targetAt q 0 = .ok (q.registers.read r).toNat) := by
  obtain ⟨token, o, rfl, hdecode, htargets⟩ := targets_of_assemble h ht htokens hop htransfer
  obtain rfl : token = name := Option.some.inj hname
  refine ⟨_, hdecode, rfl, ?_⟩
  cases htargets with
  | register hreg hr =>
      rename_i r
      rw [hreg]
      exact ⟨nofun, fun _ => ⟨r, hr.symm, fun q _ => rfl⟩⟩
  | immediate hint =>
      -- no literal is an identifier, and every label is one
      obtain ⟨-, rfl⟩ := assemble_eq_ok_iff.1 h
      obtain ⟨k, hk⟩ := exists_label?_iff.1 ⟨index, hl⟩
      rw [Token.integer?_eq_none_of_isIdentifier hk.isIdentifier] at hint
      cases hint
  | label hreg hindex =>
      rw [hreg]
      exact ⟨fun _ q hq => target_label hl hq, nofun⟩

end Transfer

def shadowing : String := "R1: CALL r1x\nr1x: JMP R1"

def shadowingProgram : Program :=
  .ofParts ["CALL r1x", "JMP R1"] (.ofList [("R1", 0), ("r1x", 1)]) [1, 2]

theorem named_target_of_assemble_shadowing :
    assemble shadowing = .ok shadowingProgram ∧
      (∃ i, decode "CALL r1x" = .ok i ∧ i.opcode = .call ∧
        ∀ q : Processor, q.program = shadowingProgram → i.targetAt q 0 = .ok 1) ∧
      ∃ i, decode "JMP R1" = .ok i ∧ i.opcode = .jmp ∧
        ∃ r : Register, r.val = 1 ∧
          ∀ q : Processor, q.program = shadowingProgram →
            i.targetAt q 0 = .ok (q.registers.read r).toNat := by
  have h : assemble shadowing = .ok shadowingProgram := rfl
  have hcall : shadowingProgram.instruction? 0 = some "CALL r1x" := rfl
  have hjmp : shadowingProgram.instruction? 1 = some "JMP R1" := rfl
  have hcallTokens : tokens "CALL r1x" = ["CALL", "r1x"] := rfl
  have hjmpTokens : tokens "JMP R1" = ["JMP", "R1"] := rfl
  have hcallOp : Spells "CALL" Opcode.call.mnemonic := rfl
  have hjmpOp : Spells "JMP" Opcode.jmp.mnemonic := rfl
  have hplainLabel : shadowingProgram.label? "r1x" = some 1 := rfl
  have hshadowedLabel : shadowingProgram.label? "R1" = some 0 := rfl
  obtain ⟨i, hi, hop, hplain, -⟩ :=
    named_target_of_assemble h hcall hcallTokens hcallOp rfl rfl hplainLabel
  obtain ⟨j, hj, hop', -, hshadowed⟩ :=
    named_target_of_assemble h hjmp hjmpTokens hjmpOp rfl rfl hshadowedLabel
  exact ⟨h, ⟨i, hi, hop, hplain rfl⟩, j, hj, hop', hshadowed rfl⟩

theorem not_every_label_is_a_target :
    ¬ ∀ (source : String) (p : Program) (n : Nat) (text mnemonic : String) (args : List String)
        (op : Opcode) (name : String) (index : Nat),
        assemble source = .ok p → p.instruction? n = some text →
        tokens text = mnemonic :: args → Spells mnemonic op.mnemonic →
        op.controlTransfer = true → args[0]? = some name → p.label? name = some index →
        ∃ i, decode text = .ok i ∧
          ∀ q : Processor, q.program = p → i.targetAt q 0 = .ok index := by
  intro h
  let p : Program := .ofParts ["JMP R1", "HLT"] (.ofList [("R1", 1)]) [1, 2]
  obtain ⟨i, hi, htarget⟩ :=
    h "JMP R1\nR1: HLT" p 0 "JMP R1" "JMP" ["R1"] .jmp "R1" 1 rfl rfl rfl rfl rfl rfl rfl
  have hdecode : decode "JMP R1" = .ok ⟨.jmp, [.register 1]⟩ := rfl
  obtain rfl : (⟨.jmp, [.register 1]⟩ : Instruction) = i := Except.ok.inj (hdecode.symm.trans hi)
  have h0 : (.ok 0 : Except Fault Nat) = .ok 1 := htarget ((Processor.new {}).load p).1 rfl
  exact Nat.zero_ne_one (Except.ok.inj h0)

end VectorMachine.Assembly
