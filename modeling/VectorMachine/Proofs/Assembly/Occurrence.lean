import VectorMachine.Proofs.Assembly.Lines

namespace VectorMachine

def Spells (token name : String) : Prop := token.toList.map Char.toUpper = name.toList

theorem Opcode.map_toUpper_mnemonic (op : Opcode) :
    op.mnemonic.toList.map Char.toUpper = op.mnemonic.toList := by
  cases op with
  | alu a => cases a <;> decide
  | jumpIf c => cases c <;> decide
  | _ => decide

theorem Opcode.ofMnemonic?_eq_some_iff {token : String} {op : Opcode} :
    ofMnemonic? token = some op ↔ Spells token op.mnemonic := by
  constructor
  · intro h
    have hfound := List.find?_some h
    exact (beq_iff_eq.1 hfound).symm
  · intro h
    have hop := ofMnemonic?_mnemonic op
    rw [ofMnemonic?, map_toUpper_mnemonic] at hop
    have ht : token.toList.map Char.toUpper = op.mnemonic.toList := h
    rw [ofMnemonic?, ht, hop]

theorem Opcode.ofMnemonic?_eq_none_iff {token : String} :
    ofMnemonic? token = none ↔ ∀ op : Opcode, ¬ Spells token op.mnemonic := by
  rw [Option.eq_none_iff_forall_ne_some]
  exact forall_congr' fun op => not_congr ofMnemonic?_eq_some_iff

theorem VectorOp.ofName?_eq_none_iff {token : String} :
    ofName? token = none ↔ ∀ op : VectorOp, ¬ Spells token op.name := by
  rw [ofName?, List.find?_eq_none]
  constructor
  · intro h op hs
    exact h op (mem_all op) (beq_iff_eq.2 hs.symm)
  · intro h op _ hs
    exact h op (beq_iff_eq.1 hs).symm

namespace Assembly

inductive Spot where
  | label
  | mnemonic
  | count
  | operand (k : Nat)
  deriving DecidableEq, Repr

def Spot.rank : Spot → Nat
  | .label => 0
  | .mnemonic => 1
  | .count => 2
  | .operand k => k + 3

structure Occurrence where
  line : Nat
  spot : Spot
  problem : Problem
  deriving DecidableEq, Repr

namespace Occurrence

def diagnostic (o : Occurrence) : Diagnostic := ⟨o.line, o.problem⟩

def Before (a b : Occurrence) : Prop :=
  a.line < b.line ∨ a.line = b.line ∧ a.spot.rank < b.spot.rank

end Occurrence

def Invokes (source : String) (n : Nat) (op : Opcode) (args : List String) : Prop :=
  ∃ text mnemonic, Instructs source n text ∧ Instruction.tokens text = mnemonic :: args ∧
    Spells mnemonic op.mnemonic

inductive Occurs (source : String) : Occurrence → Prop where
  | duplicateLabel {n m : Nat} {name : String} (h : Labels source n name)
      (hm : Labels source m name) (hlt : m < n) :
      Occurs source ⟨n, .label, .duplicateLabel name⟩
  | unknownInstruction {n : Nat} {text token : String} {args : List String}
      (h : Instructs source n text) (ht : Instruction.tokens text = token :: args)
      (hno : ∀ op : Opcode, ¬ Spells token op.mnemonic) :
      Occurs source ⟨n, .mnemonic, .unknownInstruction token⟩
  | operandCount {n : Nat} {op : Opcode} {args : List String} (h : Invokes source n op args)
      (hcount : op.arity.accepts args.length = false) :
      Occurs source ⟨n, .count, .operandCount op args.length⟩
  | unknownVectorOp {n : Nat} {args : List String} {token : String}
      (h : Invokes source n .gexec args) (hk : args[0]? = some token)
      (hno : ∀ op : VectorOp, ¬ Spells token op.name) :
      Occurs source ⟨n, .operand 0, .unknownVectorOp token⟩
  | invalidRegister {n k : Nat} {op : Opcode} {args : List String} {token : String}
      (h : Invokes source n op args) (hk : args[k]? = some token) (hg : ¬ (op = .gexec ∧ k = 0))
      (hreg : Token.isRegisterName token.toList = true)
      (hbound : 8 ≤ Nat.ofDigitChars 10 token.toList.tail 0) :
      Occurs source ⟨n, .operand k, .invalidRegister token⟩
  | undefinedLabel {n : Nat} {op : Opcode} {args : List String} {token : String}
      (h : Invokes source n op args) (hop : op.controlTransfer = true)
      (hk : args[0]? = some token) (hreg : Token.isRegisterName token.toList = false)
      (hint : Token.integer? token.toList = none) (hno : ∀ m, ¬ Labels source m token) :
      Occurs source ⟨n, .operand 0, .undefinedLabel token⟩

end Assembly

end VectorMachine
