import VectorMachine.Instruction.Decode
import VectorMachine.Proofs.Token.Literal

namespace VectorMachine

theorem mapM_eq_ok_iff {ε α β : Type} {f : α → Except ε β} {xs : List α} {ys : List β} :
    xs.mapM f = .ok ys ↔ xs.map f = ys.map .ok := by
  induction xs generalizing ys with
  | nil => cases ys <;> simp [pure, Except.pure]
  | cons x xs ih =>
      rw [List.mapM_cons]
      cases hx : f x with
      | error e => cases ys <;> simp [bind, Except.bind, hx]
      | ok y =>
          cases hxs : xs.mapM f with
          | error e => cases ys <;> simp [bind, Except.bind, ← ih, hx, hxs]
          | ok zs => cases ys <;> simp [bind, Except.bind, pure, Except.pure, ← ih, hx, hxs]

theorem Register.val_of_ofNat? {n : Nat} {r : Register} (h : ofNat? n = some r) : n = r.val := by
  unfold ofNat? at h
  split at h <;> cases h
  rfl

def Token.Malformed (token : String) : Prop :=
  isRegisterName token.toList = false ∧ integer? token.toList = none ∧
    isIdentifier token.toList = false

namespace Operand

inductive ReadAs (token : String) : Except DecodeError Operand → Prop where
  | register {r : Register} (hreg : Token.isRegisterName token.toList = true)
      (hr : Nat.ofDigitChars 10 token.toList.tail 0 = r.val) : ReadAs token (.ok (.register r))
  | noRegister (hreg : Token.isRegisterName token.toList = true)
      (hbound : 8 ≤ Nat.ofDigitChars 10 token.toList.tail 0) :
      ReadAs token (.error (.invalidRegister token))
  | immediate {v : Int64} (hreg : Token.isRegisterName token.toList = false)
      (hint : Token.integer? token.toList = some v) : ReadAs token (.ok (.immediate v))
  | label (hreg : Token.isRegisterName token.toList = false)
      (hint : Token.integer? token.toList = none)
      (hid : Token.isIdentifier token.toList = true) : ReadAs token (.ok (.label token))
  | malformed (h : Token.Malformed token) : ReadAs token (.error (.invalidOperand token))

theorem readAs_read (token : String) : ReadAs token (read token) := by
  unfold read
  dsimp only
  cases hreg : Token.isRegisterName token.toList with
  | true =>
      rw [if_pos rfl]
      cases hr : Register.ofNat? (Nat.ofDigitChars 10 token.toList.tail 0) with
      | some r => exact .register hreg (Register.val_of_ofNat? hr)
      | none => exact .noRegister hreg (Register.ofNat?_eq_none_iff.1 hr)
  | false =>
      rw [if_neg Bool.false_ne_true]
      cases hint : Token.integer? token.toList with
      | some v => exact .immediate hreg hint
      | none =>
          cases hid : Token.isIdentifier token.toList with
          | true => exact .label hreg hint hid
          | false => exact .malformed ⟨hreg, hint, hid⟩

theorem readAs_of_read {token : String} {x : Except DecodeError Operand} (h : read token = x) :
    ReadAs token x :=
  h ▸ readAs_read token

def General : Operand → Prop
  | .register _ => True
  | .immediate v => v ≠ Int64.minValue
  | .label name =>
      Token.isIdentifier name.toList = true ∧ Token.isRegisterName name.toList = false
  | .vectorOp _ => False

theorem general_of_read {token : String} {o : Operand} (h : read token = .ok o) : o.General := by
  cases readAs_of_read h with
  | register => trivial
  | immediate _ hint => exact Token.ne_minValue_of_integer? hint
  | label hreg _ hid => exact ⟨hid, hreg⟩

theorem eq_vectorOp_of_readVectorOp {token : String} {o : Operand}
    (h : readVectorOp token = .ok o) : ∃ op, o = .vectorOp op := by
  unfold readVectorOp at h
  split at h
  · rename_i op _
    cases h
    exact ⟨op, rfl⟩
  · cases h

theorem readVectorOp_name (op : VectorOp) : readVectorOp op.name = .ok (.vectorOp op) := by
  rw [readVectorOp, VectorOp.ofName?_name]

theorem read_of_integer? {token : String} {v : Int64} (h : Token.integer? token.toList = some v) :
    read token = .ok (.immediate v) := by
  have hreg : Token.isRegisterName token.toList = false := by
    refine Bool.eq_false_iff.2 fun hr => ?_
    have hid := Token.isIdentifier_of_isRegisterName hr
    rw [Token.integer?_eq_none_of_isIdentifier hid] at h
    cases h
  simp only [read, hreg, Bool.false_eq_true, if_false, h]

theorem read_text_register (r : Register) : read r.text = .ok (.register r) := by
  have hname : ∀ r : Register, Token.isRegisterName r.text.toList = true ∧
      Nat.ofDigitChars 10 r.text.toList.tail 0 = r.val := by decide +kernel
  simp only [read, (hname r).1, if_true, (hname r).2, Register.ofNat?_val]

theorem read_text {o : Operand} (h : o.General) : read o.text = .ok o := by
  cases o with
  | register r => exact read_text_register r
  | immediate v => exact read_of_integer? (Token.integer?_text h)
  | label name =>
      have hint := Token.integer?_eq_none_of_isIdentifier h.1
      simp only [text, read, h.2, Bool.false_eq_true, if_false, hint, h.1, if_true]
  | vectorOp op => exact h.elim

end Operand

namespace Instruction

theorem decode_of_tokens {text mnemonic : String} {args : List String} {op : Opcode}
    (ht : tokens text = mnemonic :: args) (ho : Opcode.ofMnemonic? mnemonic = some op) :
    decode text = if op.arity.accepts args.length then (readOperands op args).map fun os => ⟨op, os⟩
      else .error (.operandCount op args.length) := by
  simp only [decode, ht, ho]

theorem exists_tokens_of_decode {text : String} {i : Instruction} (h : decode text = .ok i) :
    ∃ mnemonic args, tokens text = mnemonic :: args ∧
      Opcode.ofMnemonic? mnemonic = some i.opcode ∧
      i.opcode.arity.accepts args.length = true ∧ readOperands i.opcode args = .ok i.operands := by
  cases ht : tokens text with
  | nil => simp [decode, ht] at h
  | cons mnemonic args =>
      cases ho : Opcode.ofMnemonic? mnemonic with
      | none => simp [decode, ht, ho] at h
      | some op =>
          rw [decode_of_tokens ht ho] at h
          split at h
          · rename_i hcount
            cases hos : readOperands op args with
            | error e =>
                rw [hos] at h
                cases h
            | ok os =>
                rw [hos] at h
                cases h
                exact ⟨mnemonic, args, rfl, ho, hcount, hos⟩
          · cases h

theorem readOperands_of_ne {op : Opcode} (h : op ≠ .gexec) (args : List String) :
    readOperands op args = args.mapM Operand.read := by
  cases op <;> first | rfl | exact absurd rfl h

theorem readOperands_gexec_cons {first : String} {rest : List String} {os : List Operand} :
    readOperands .gexec (first :: rest) = .ok os ↔
      ∃ o others, os = o :: others ∧ Operand.readVectorOp first = .ok o ∧
        rest.mapM Operand.read = .ok others := by
  rw [readOperands]
  cases ho : Operand.readVectorOp first with
  | error e => simp [bind, Except.bind]
  | ok o =>
      cases hs : rest.mapM Operand.read with
      | error e => simp [bind, Except.bind]
      | ok others => simp [bind, Except.bind, pure, Except.pure, eq_comm]

end Instruction

end VectorMachine
