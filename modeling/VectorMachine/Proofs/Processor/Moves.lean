import VectorMachine.Proofs.Alu
import VectorMachine.Proofs.Instruction.Classes
import VectorMachine.Proofs.Processor.Commits
import VectorMachine.Proofs.Processor.Requests
import VectorMachine.Proofs.Processor.Resolution

namespace VectorMachine.Processor

def AtMove (p : Processor) (dst src : String) : Prop :=
  ∃ text mnemonic, p.program.instruction? p.pc = some text ∧
    Instruction.tokens text = [mnemonic, dst, src] ∧ Opcode.ofMnemonic? mnemonic = some .mov

section Moves

variable {p : Processor} {pace : Pace} {dst src : String} {i : Instruction} {a : Action} {v : Int64}

theorem AtMove.operands (h : p.AtMove dst src) (hi : p.current? = some i) :
    ∃ x y, i = ⟨.mov, [x, y]⟩ ∧ Operand.read dst = .ok x ∧ Operand.read src = .ok y := by
  obtain ⟨text, mnemonic, ht, htokens, ho⟩ := h
  obtain ⟨-, text', ht', hd⟩ := exists_text_of_current hi
  obtain rfl : text' = text := Option.some.inj (ht'.symm.trans ht)
  obtain ⟨opcode, operands⟩ := i
  obtain ⟨mnemonic', args, htokens', ho', -, hos⟩ := Instruction.exists_tokens_of_decode hd
  obtain ⟨rfl, rfl⟩ := List.cons.inj (htokens'.symm.trans htokens)
  obtain rfl : opcode = .mov := Option.some.inj (ho'.symm.trans ho)
  rw [Instruction.readOperands_of_ne Opcode.noConfusion, mapM_eq_ok_iff] at hos
  obtain ⟨x, rest, rfl, hx, hrest⟩ := List.map_eq_cons_iff.1 hos.symm
  obtain ⟨y, rest, rfl, hy, hnil⟩ := List.map_eq_cons_iff.1 hrest
  obtain rfl := List.map_eq_nil_iff.1 hnil
  exact ⟨x, y, rfl, hx.symm, hy.symm⟩

theorem register_of_commits (hc : Commits p pace i a) (h : p.AtMove dst src)
    (hv : Token.integer? src.toList = some v) :
    ∃ r, Operand.read dst = .ok (.register r) ∧
      (p.advance pace).next.registers.read r = .ofRaw v := by
  obtain ⟨x, y, rfl, hdst, hsrc⟩ := h.operands hc.current
  obtain rfl : y = .immediate v :=
    Except.ok.inj (hsrc.symm.trans (Operand.read_of_integer? hv))
  cases resolved_of_resolve hc.resolve with
  | mov _ hr hw =>
      obtain rfl := Option.some.inj (operand?_of_registerAt hr)
      cases hw
      refine ⟨_, hdst, ?_⟩
      rw [show (p.advance pace).next.registers = _ from congrArg (fun q => q.registers) hc.next]
      exact Registers.read_write_self _ _ _
  | _ ho => cases ho

theorem committed_of_atMove (hp : p.FlightFits) (hr : p.halted = false) (h : p.AtMove dst src)
    {r : Register} (hdst : Operand.read dst = .ok (.register r))
    (hv : Token.integer? src.toList = some v) : p.step.result = .committed := by
  obtain ⟨text, mnemonic, ht, htokens, ho⟩ := h
  have hos : Instruction.readOperands .mov [dst, src] = .ok [.register r, .immediate v] := by
    rw [Instruction.readOperands_of_ne Opcode.noConfusion, mapM_eq_ok_iff]
    simp only [List.map_cons, List.map_nil, hdst, Operand.read_of_integer? hv]
  have hdecode : Instruction.decode text = .ok ⟨.mov, [.register r, .immediate v]⟩ := by
    rw [Instruction.decode_of_tokens htokens ho, hos]
    rfl
  have hi : p.current? = some ⟨.mov, [.register r, .immediate v]⟩ := by
    rw [current?_of_text hr ht, hdecode]
    rfl
  rw [step_eq_commit hp hi]
  exact result_commit_eq_committed (a := .assign r (.ofRaw v)) hr rfl rfl

end Moves

theorem literals_are_exact (token : String) :
    (∀ v, Token.integer? token.toList = some v ↔
      Token.Literal token.toList v.toInt ∧ v.toInt.natAbs ≤ 2 ^ 63 - 1) ∧
    (∀ x, Operand.read token = x ↔ Operand.Class token x) ∧
    (∃! x, Operand.Class token x) ∧
    (∀ v, Token.integer? token.toList = some v →
      ¬ Token.Name token.toList ∧ ∀ n, ¬ Token.RegisterName token.toList n) ∧
    ∀ v, Token.integer? token.toList = some v →
      ∀ (p : Processor) (dst : String), Reachable p → p.AtMove dst token →
        (∀ pace, (p.advance pace).result = .committed →
          ∃ r, Operand.read dst = .ok (.register r) ∧
            (((p.advance pace).next.registers.read r).toNat : Int) = v.toInt % 2 ^ 16) ∧
        (p.halted = false → ∀ r, Operand.read dst = .ok (.register r) →
          p.step.result = .committed) := by
  have hread {x : Except DecodeError Operand} : Operand.read token = x ↔ Operand.Class token x :=
    Operand.read_eq_iff_class
  refine ⟨fun v => Token.integer?_eq_some_iff, fun x => hread, ?_, ?_, ?_⟩
  · exact ⟨_, hread.1 rfl, fun x hx => (hread.2 hx).symm⟩
  · intro v hv
    have hid := (Token.integer?_eq_some_iff.1 hv).1.not_isIdentifier
    refine ⟨fun hname => ?_, fun n hn => ?_⟩
    · rw [Token.name_iff.1 hname] at hid
      cases hid
    · rw [Token.isIdentifier_of_isRegisterName (Token.registerName_iff.1 hn).1] at hid
      cases hid
  · intro v hv p dst hp h
    refine ⟨fun pace hc => ?_, fun hr r hdst => committed_of_atMove hp.flightFits hr h hdst hv⟩
    obtain ⟨i, a, ha⟩ := commits_of_committed hp.flightFits hc
    obtain ⟨r, hdst, hword⟩ := register_of_commits ha h hv
    exact ⟨r, hdst, by rw [hword, Word.toNat_ofRaw]⟩

def moving : Processor :=
  let calls := List.replicate 3 (Request.call .micro)
  (new {}).served (.load (.ofInstructions ["mov r03, -0x10001"]) :: calls)

theorem literals_are_exact_moving :
    Token.integer? "-0x10001".toList = some (-65537) ∧
      Token.Literal "-0x10001".toList (-65537) ∧
      Reachable moving ∧ moving.AtMove "r03" "-0x10001" ∧
      (moving.advance .micro).result = .committed ∧
      ∃ r, Operand.read "r03" = .ok (.register r) ∧
        (((moving.advance .micro).next.registers.read r).toNat : Int) = 65535 := by
  have hv : Token.integer? "-0x10001".toList = some (-65537) := by decide +kernel
  have hp : Reachable moving := ⟨{}, _, rfl⟩
  have hmove : moving.AtMove "r03" "-0x10001" :=
    ⟨"mov r03, -0x10001", "mov", by decide +kernel, by decide +kernel, by decide +kernel⟩
  have hc : (moving.advance .micro).result = .committed := by decide +kernel
  obtain ⟨hliteral, -, -, -, hmoves⟩ := literals_are_exact "-0x10001"
  exact ⟨hv, ((hliteral _).1 hv).1, hp, hmove, hc,
    (hmoves _ hv moving "r03" hp hmove).1 .micro hc⟩

end VectorMachine.Processor
