import VectorMachine.Processor.Plan

namespace VectorMachine

theorem exists_of_bind_eq_ok {ε α β : Type} {x : Except ε α} {f : α → Except ε β} {b : β}
    (h : x >>= f = .ok b) : ∃ a, x = .ok a ∧ f a = .ok b := by
  cases x with
  | error e => cases h
  | ok a => exact ⟨a, rfl, h⟩

namespace Processor

section Lookups

variable {p : Processor} {i : Instruction} {position : Nat}

theorem operand?_of_argument {o : Operand} (h : i.argument position = .ok o) :
    i.operand? position = some o := by
  simp only [Instruction.argument] at h
  split at h
  · rename_i ho
    cases h
    exact ho
  · cases h

theorem operand?_of_registerAt {r : Register} (h : i.registerAt position = .ok r) :
    i.operand? position = some (.register r) := by
  obtain ⟨o, ho, h⟩ := exists_of_bind_eq_ok h
  cases o with
  | register s =>
      cases h
      exact operand?_of_argument ho
  | _ => cases h

theorem valueAt_eq_ok_iff {w : Word} :
    i.valueAt p position = .ok w ↔ p.value? (i.operand? position) = some w := by
  simp only [Instruction.valueAt, Instruction.argument, value?]
  cases i.operand? position with
  | none => constructor <;> intro h <;> cases h
  | some o =>
      change p.value o = .ok w ↔ (p.value o).toOption = some w
      cases p.value o with
      | error f => constructor <;> intro h <;> cases h
      | ok x => constructor <;> intro h <;> cases h <;> rfl

theorem target?_of_targetAt {target : Nat} (h : i.targetAt p position = .ok target) :
    p.target? (i.operand? position) = some target := by
  obtain ⟨o, ho, ht⟩ := exists_of_bind_eq_ok h
  rw [target?, operand?_of_argument ho, Option.bind_some, ht]
  rfl

theorem cell_of_primaryAt {a : PrimaryCell} (h : i.primaryAt p position = .ok a) :
    ((p.value? (i.operand? position)).map fun w => Cell.ofNat w.toNat) = some a := by
  obtain ⟨w, hw, h⟩ := exists_of_bind_eq_ok h
  cases h
  rw [valueAt_eq_ok_iff.1 hw]
  rfl

theorem cell_of_unitCellAt {a : UnitCell} (h : i.unitCellAt p position = .ok a) :
    ((p.value? (i.operand? position)).map fun w => Cell.ofNat w.toNat) = some a := by
  obtain ⟨w, hw, h⟩ := exists_of_bind_eq_ok h
  cases h
  rw [valueAt_eq_ok_iff.1 hw]
  rfl

theorem valueAt_of_registerAt {r : Register} (h : i.registerAt position = .ok r) :
    i.valueAt p position = .ok (p.registers.read r) := by
  simp only [Instruction.valueAt, Instruction.argument, operand?_of_registerAt h]
  rfl

theorem aluOutput?_of_resolveAlu {op : AluOp} {r : Register} {out : Alu.Output}
    (h : p.resolveAlu i op = .ok (r, out)) :
    i.registerAt 0 = .ok r ∧ p.aluOutput? op (i.operand? 0) (i.operand? 1) = some out := by
  obtain ⟨s, hs, h⟩ := exists_of_bind_eq_ok h
  have hleft := valueAt_eq_ok_iff.1 (valueAt_of_registerAt (p := p) hs)
  dsimp only at h
  rw [aluOutput?, hleft, Option.bind_eq_bind, Option.bind_some]
  split at h
  · rename_i hu
    obtain ⟨out', hout, h⟩ := exists_of_bind_eq_ok (x := compute op (p.registers.read s) 0) h
    cases h
    rw [if_pos hu]
    exact ⟨hs, eval?_of_compute hout⟩
  · rename_i hu
    obtain ⟨b, hb, h⟩ := exists_of_bind_eq_ok h
    obtain ⟨out', hout, h⟩ := exists_of_bind_eq_ok h
    cases h
    rw [if_neg hu, valueAt_eq_ok_iff.1 hb]
    exact ⟨hs, eval?_of_compute hout⟩

end Lookups

inductive Resolved (p : Processor) (i : Instruction) : Action → Prop where
  | nop (h : i.opcode = .nop) : Resolved p i .proceed
  | hlt (h : i.opcode = .hlt) : Resolved p i .stop
  | mov {r : Register} {w : Word} (h : i.opcode = .mov) (hr : i.registerAt 0 = .ok r)
      (hw : i.valueAt p 1 = .ok w) : Resolved p i (.assign r w)
  | load {r : Register} {w : Word} (h : i.opcode = .load) (hr : i.registerAt 0 = .ok r)
      (hw : i.valueAt p 1 = .ok w) : Resolved p i (.assign r (p.read w))
  | store {r : Register} {a : PrimaryCell} (h : i.opcode = .store) (hr : i.registerAt 0 = .ok r)
      (ha : i.primaryAt p 1 = .ok a) : Resolved p i (.store a (p.registers.read r))
  | alu {op : AluOp} {r : Register} {out : Alu.Output} (h : i.opcode = .alu op)
      (ho : p.resolveAlu i op = .ok (r, out)) : Resolved p i (.latch (some r) out)
  | cmp {r : Register} {out : Alu.Output} (h : i.opcode = .cmp)
      (ho : p.resolveAlu i .sub = .ok (r, out)) : Resolved p i (.latch none out)
  | jmp {target : Nat} (h : i.opcode = .jmp) (ht : i.targetAt p 0 = .ok target) :
      Resolved p i (.jump target)
  | taken {c : Condition} {target : Nat} (h : i.opcode = .jumpIf c)
      (ht : i.targetAt p 0 = .ok target) (hc : p.flags.satisfies c = true) :
      Resolved p i (.jump target)
  | notTaken {c : Condition} (h : i.opcode = .jumpIf c) (hc : p.flags.satisfies c = false) :
      Resolved p i .proceed
  | call {target : Nat} (h : i.opcode = .call) (ht : i.targetAt p 0 = .ok target) :
      Resolved p i (.call target)
  | ret (h : i.opcode = .ret) : Resolved p i .ret
  | push {w : Word} (h : i.opcode = .push) (hw : i.valueAt p 0 = .ok w) : Resolved p i (.push w)
  | pop {r : Register} (h : i.opcode = .pop) (hr : i.registerAt 0 = .ok r) : Resolved p i (.pop r)
  | gload {src : PrimaryCell} {dst : UnitCell} {len : Word} (h : i.opcode = .gload)
      (hd : i.unitCellAt p 1 = .ok dst) (hl : i.valueAt p 2 = .ok len) :
      Resolved p i (.transferIn src dst len.toNat)
  | gstore {src : UnitCell} {dst : PrimaryCell} {len : Word} (h : i.opcode = .gstore)
      (hs : i.unitCellAt p 0 = .ok src) (hl : i.valueAt p 2 = .ok len) :
      Resolved p i (.transferOut src dst len.toNat)
  | gexec {u busy : VectorUnit} {op : VectorOp} {src dst : UnitCell} {len : Word}
      {scalar : Option Word} (h : i.opcode = .gexec) (hu : p.unit = some u)
      (hl : i.valueAt p 3 = .ok len)
      (hs : u.start ⟨op, src, dst, len.toNat, scalar⟩ = .ok busy) :
      Resolved p i (.launch ⟨op, src, dst, len.toNat, scalar⟩)
  | gwait (h : i.opcode = .gwait) : Resolved p i .drain
  | gres {u : VectorUnit} {r : Register} (h : i.opcode = .gres) (hu : p.unit = some u)
      (hr : i.registerAt 0 = .ok r) : Resolved p i (.assign r u.result)
  | gread {u : VectorUnit} {r : Register} {a : UnitCell} (h : i.opcode = .gread)
      (hu : p.unit = some u) (hr : i.registerAt 0 = .ok r) (ha : i.unitCellAt p 1 = .ok a) :
      Resolved p i (.assign r (u.read a))
  | gwrite {u : VectorUnit} {a : UnitCell} {w : Word} (h : i.opcode = .gwrite)
      (hu : p.unit = some u) (ha : i.unitCellAt p 0 = .ok a) (hw : i.valueAt p 1 = .ok w) :
      Resolved p i (.poke a w)

theorem resolved_of_resolveLaunch {p : Processor} {u : VectorUnit} {i : Instruction} {a : Action}
    (ho : i.opcode = .gexec) (hu : p.unit = some u) (h : p.resolveLaunch u i = .ok a) :
    Resolved p i a := by
  obtain ⟨op, _, h⟩ := exists_of_bind_eq_ok h
  obtain ⟨src, _, h⟩ := exists_of_bind_eq_ok h
  obtain ⟨dst, _, h⟩ := exists_of_bind_eq_ok h
  obtain ⟨len, hl, h⟩ := exists_of_bind_eq_ok h
  obtain ⟨scalar, _, h⟩ := exists_of_bind_eq_ok h
  unfold launch at h
  split at h
  · rename_i hs
    cases h
    exact .gexec ho hu hl hs
  · cases h

theorem resolved_of_resolve {p : Processor} {i : Instruction} {a : Action}
    (h : p.resolve i = .ok a) : Resolved p i a := by
  simp only [resolve] at h
  cases ho : i.opcode with
  | nop | hlt | ret =>
      simp only [ho] at h
      cases h
      first
        | exact .nop ho
        | exact .hlt ho
        | exact .ret ho
  | mov =>
      simp only [ho] at h
      obtain ⟨r, hr, h⟩ := exists_of_bind_eq_ok h
      obtain ⟨w, hw, h⟩ := exists_of_bind_eq_ok h
      cases h
      exact .mov ho hr hw
  | load =>
      simp only [ho] at h
      obtain ⟨r, hr, h⟩ := exists_of_bind_eq_ok h
      obtain ⟨w, hw, h⟩ := exists_of_bind_eq_ok h
      cases h
      exact .load ho hr hw
  | store =>
      simp only [ho] at h
      obtain ⟨r, hr, h⟩ := exists_of_bind_eq_ok h
      obtain ⟨c, hc, h⟩ := exists_of_bind_eq_ok h
      cases h
      exact .store ho hr hc
  | alu op =>
      simp only [ho] at h
      obtain ⟨⟨r, out⟩, hout, h⟩ := exists_of_bind_eq_ok h
      cases h
      exact .alu ho hout
  | cmp =>
      simp only [ho] at h
      obtain ⟨⟨r, out⟩, hout, h⟩ := exists_of_bind_eq_ok h
      cases h
      exact .cmp ho hout
  | jmp =>
      simp only [ho] at h
      obtain ⟨target, ht, h⟩ := exists_of_bind_eq_ok h
      cases h
      exact .jmp ho ht
  | jumpIf c =>
      simp only [ho] at h
      obtain ⟨target, ht, h⟩ := exists_of_bind_eq_ok h
      split at h
      · rename_i hc
        cases h
        exact .taken ho ht hc
      · rename_i hc
        cases h
        exact .notTaken ho (Bool.eq_false_iff.2 hc)
  | call =>
      simp only [ho] at h
      obtain ⟨target, ht, h⟩ := exists_of_bind_eq_ok h
      cases h
      exact .call ho ht
  | push =>
      simp only [ho] at h
      obtain ⟨w, hw, h⟩ := exists_of_bind_eq_ok h
      cases h
      exact .push ho hw
  | pop =>
      simp only [ho] at h
      obtain ⟨r, hr, h⟩ := exists_of_bind_eq_ok h
      cases h
      exact .pop ho hr
  | gload =>
      simp only [ho] at h
      obtain ⟨_, _, h⟩ := exists_of_bind_eq_ok h
      obtain ⟨src, _, h⟩ := exists_of_bind_eq_ok h
      obtain ⟨dst, hd, h⟩ := exists_of_bind_eq_ok h
      obtain ⟨len, hl, h⟩ := exists_of_bind_eq_ok h
      cases h
      exact .gload ho hd hl
  | gstore =>
      simp only [ho] at h
      obtain ⟨_, _, h⟩ := exists_of_bind_eq_ok h
      obtain ⟨src, hs, h⟩ := exists_of_bind_eq_ok h
      obtain ⟨dst, _, h⟩ := exists_of_bind_eq_ok h
      obtain ⟨len, hl, h⟩ := exists_of_bind_eq_ok h
      cases h
      exact .gstore ho hs hl
  | gexec =>
      simp only [ho] at h
      obtain ⟨u, hu, h⟩ := exists_of_bind_eq_ok h
      exact resolved_of_resolveLaunch ho (unit_of_attached hu) h
  | gwait =>
      simp only [ho] at h
      obtain ⟨_, _, h⟩ := exists_of_bind_eq_ok h
      cases h
      exact .gwait ho
  | gres =>
      simp only [ho] at h
      obtain ⟨u, hu, h⟩ := exists_of_bind_eq_ok h
      obtain ⟨r, hr, h⟩ := exists_of_bind_eq_ok h
      cases h
      exact .gres ho (unit_of_attached hu) hr
  | gread =>
      simp only [ho] at h
      obtain ⟨u, hu, h⟩ := exists_of_bind_eq_ok h
      obtain ⟨r, hr, h⟩ := exists_of_bind_eq_ok h
      obtain ⟨c, hc, h⟩ := exists_of_bind_eq_ok h
      cases h
      exact .gread ho (unit_of_attached hu) hr hc
  | gwrite =>
      simp only [ho] at h
      obtain ⟨u, hu, h⟩ := exists_of_bind_eq_ok h
      obtain ⟨c, hc, h⟩ := exists_of_bind_eq_ok h
      obtain ⟨w, hw, h⟩ := exists_of_bind_eq_ok h
      cases h
      exact .gwrite ho (unit_of_attached hu) hc hw

end Processor

end VectorMachine
