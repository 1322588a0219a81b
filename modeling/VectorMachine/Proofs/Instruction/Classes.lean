import VectorMachine.Proofs.Instruction.Reading
import VectorMachine.Proofs.Token.Grammar

namespace VectorMachine.Operand

inductive Class (token : String) : Except DecodeError Operand → Prop where
  | register {r : Register} (h : Token.RegisterName token.toList r.val) :
      Class token (.ok (.register r))
  | noRegister {n : Nat} (h : Token.RegisterName token.toList n) (bound : 8 ≤ n) :
      Class token (.error (.invalidRegister token))
  | immediate {v : Int64} (noRegister : ∀ n, ¬ Token.RegisterName token.toList n)
      (h : Token.integer? token.toList = some v) : Class token (.ok (.immediate v))
  | label (noRegister : ∀ n, ¬ Token.RegisterName token.toList n)
      (noLiteral : Token.integer? token.toList = none) (h : Token.Name token.toList) :
      Class token (.ok (.label token))
  | malformed (noRegister : ∀ n, ¬ Token.RegisterName token.toList n)
      (noLiteral : Token.integer? token.toList = none) (noName : ¬ Token.Name token.toList) :
      Class token (.error (.invalidOperand token))

variable {token : String} {x : Except DecodeError Operand}

theorem no_registerName_iff {cs : List Char} :
    (∀ n, ¬ Token.RegisterName cs n) ↔ Token.isRegisterName cs = false := by
  simp only [Token.registerName_iff, not_and]
  refine ⟨fun h => Bool.eq_false_iff.2 fun hr => h _ hr rfl, fun h _ hr => ?_⟩
  rw [h] at hr
  cases hr

theorem class_of_readAs (h : ReadAs token x) : Class token x := by
  cases h with
  | register hreg hr => exact .register (Token.registerName_iff.2 ⟨hreg, hr⟩)
  | noRegister hreg hbound => exact .noRegister (Token.registerName_iff.2 ⟨hreg, rfl⟩) hbound
  | immediate hreg hint => exact .immediate (no_registerName_iff.2 hreg) hint
  | label hreg hint hid => exact .label (no_registerName_iff.2 hreg) hint (Token.name_iff.2 hid)
  | malformed h =>
      obtain ⟨hreg, hint, hid⟩ := h
      refine .malformed (no_registerName_iff.2 hreg) hint fun hname => ?_
      rw [Token.name_iff.1 hname] at hid
      cases hid

theorem read_of_class (h : Class token x) : read token = x := by
  unfold read
  cases h with
  | register h =>
      obtain ⟨hreg, hr⟩ := Token.registerName_iff.1 h
      simp only [hreg, if_true, hr, Register.ofNat?_val]
  | noRegister h bound =>
      obtain ⟨hreg, hr⟩ := Token.registerName_iff.1 h
      simp only [hreg, if_true, hr, Register.ofNat?_eq_none_iff.2 bound]
  | immediate _ h => exact read_of_integer? h
  | label noRegister noLiteral h =>
      simp only [no_registerName_iff.1 noRegister, Bool.false_eq_true, if_false, noLiteral,
        Token.name_iff.1 h, if_true]
  | malformed noRegister noLiteral noName =>
      have hid := Bool.eq_false_iff.2 fun hid => noName (Token.name_iff.2 hid)
      simp only [no_registerName_iff.1 noRegister, Bool.false_eq_true, if_false, noLiteral, hid]

theorem read_eq_iff_class : read token = x ↔ Class token x :=
  ⟨fun h => class_of_readAs (readAs_of_read h), read_of_class⟩

end VectorMachine.Operand
