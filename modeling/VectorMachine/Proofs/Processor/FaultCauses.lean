import VectorMachine.Proofs.Alu
import VectorMachine.Proofs.Instruction.RoundTrip
import VectorMachine.Proofs.Processor.Commits
import VectorMachine.Proofs.Processor.Requests
import VectorMachine.Proofs.VectorUnit.Accounting

namespace VectorMachine

namespace Opcode

def namesRegister : Opcode → Bool
  | .mov | .load | .store | .pop | .gres | .gread | .alu _ | .cmp => true
  | _ => false

def firstValue (op : Opcode) : Nat :=
  if op.namesRegister || op = .gexec then 1 else 0

theorem eq_of_aluOp? {op : Opcode} {a : AluOp} (h : op.aluOp? = some a) :
    op = .alu a ∨ op = .cmp ∧ a = .sub := by
  cases op <;> cases h
  · exact .inl rfl
  · exact .inr ⟨rfl, rfl⟩

end Opcode

/-- Why a step faults, under the rank at which this is looked for. -/
inductive Cause (p : Processor) (i : Instruction) : (rank : Nat) → Fault → Prop where
  | noUnit (h : i.opcode.opClass = .bridge) (hu : p.unit = none) : Cause p i 0 (.noUnit i.opcode)
  | notARegister {o : Operand} (h : i.opcode.namesRegister = true) (ho : i.operand? 0 = some o)
      (hr : ∀ r, o ≠ .register r) : Cause p i 1 (.notARegister o)
  | unknownLabel {position : Nat} {name : String} (h : i.opcode.firstValue ≤ position)
      (ho : i.operand? position = some (.label name)) (hl : p.program.label? name = none) :
      Cause p i (position + 1) (.unknownLabel name)
  | divisionByZero (h : i.opcode = .alu .div ∨ i.opcode = .alu .mod)
      (hz : i.valueAt p 1 = .ok 0) : Cause p i (i.operands.length + 1) .divisionByZero
  | busy {u : VectorUnit} {job : Job} (h : i.opcode = .gexec) (hu : p.unit = some u)
      (hj : u.work.job? = some job) : Cause p i (i.operands.length + 1) (.refused (.busy job.op))

theorem bind_ok_eq_error_iff {ε α β : Type} {x : Except ε α} {g : α → β} {e : ε} :
    (x >>= fun a => .ok (g a)) = .error e ↔ x = .error e := by
  cases x <;> constructor <;> intro h <;> cases h <;> rfl

/-- Fails with what stands first at rank `n` or behind, and only if something stands there. -/
def FailsFrom {α : Type} (C : Nat → Fault → Prop) (n : Nat) (x : Except Fault α) : Prop :=
  ∀ f, x = .error f ↔ ∃ m, n ≤ m ∧ C m f ∧ ∀ l, n ≤ l → l < m → ∀ g, ¬ C l g

namespace FailsFrom

variable {α β : Type} {C : Nat → Fault → Prop} {n : Nat}

theorem ok {a : α} (h : ∀ m, n ≤ m → ∀ f, ¬ C m f) : FailsFrom C n (.ok a) := by
  intro f
  constructor
  · intro hf
    cases hf
  · rintro ⟨m, hm, hc, -⟩
    exact absurd hc (h m hm f)

theorem skip {x : Except Fault α} (hn : ∀ f, ¬ C n f) (h : FailsFrom C (n + 1) x) :
    FailsFrom C n x := by
  intro f
  rw [h f]
  constructor
  · rintro ⟨m, hm, hc, hfirst⟩
    refine ⟨m, Nat.le_of_succ_le hm, hc, fun l hl hlm g => ?_⟩
    rcases Nat.eq_or_lt_of_le hl with rfl | hl
    · exact hn g
    · exact hfirst l hl hlm g
  · rintro ⟨m, hm, hc, hfirst⟩
    rcases Nat.eq_or_lt_of_le hm with rfl | hm
    · exact absurd hc (hn f)
    · exact ⟨m, hm, hc, fun l hl hlm => hfirst l (Nat.le_of_succ_le hl) hlm⟩

theorem bind {x : Except Fault α} {k : α → Except Fault β} (hx : ∀ f, x = .error f ↔ C n f)
    (hk : ∀ a, x = .ok a → FailsFrom C (n + 1) (k a)) : FailsFrom C n (x >>= k) := by
  cases x with
  | ok a => exact .skip (fun f hf => by cases (hx f).2 hf) (hk a rfl)
  | error g =>
      have hg : C n g := (hx g).1 rfl
      intro f
      constructor
      · intro hf
        obtain rfl := Except.error.inj hf
        exact ⟨n, Nat.le_refl n, hg, fun l hl hln => absurd hl (Nat.not_le_of_lt hln)⟩
      · rintro ⟨m, hm, hc, hfirst⟩
        rcases Nat.eq_or_lt_of_le hm with rfl | hm
        · exact congrArg Except.error (Except.error.inj ((hx f).2 hc))
        · exact absurd hg (hfirst n (Nat.le_refl n) hm g)

theorem last {x : Except Fault α} (hx : ∀ f, x = .error f ↔ C n f)
    (hn : ∀ m, n < m → ∀ f, ¬ C m f) : FailsFrom C n x := by
  have h : FailsFrom C n (x >>= .ok) := .bind hx fun _ _ => .ok hn
  cases x <;> exact h

theorem map {x : Except Fault α} (g : α → β) (h : FailsFrom C n x) :
    FailsFrom C n (x >>= fun a => .ok (g a)) := by
  intro f
  rw [bind_ok_eq_error_iff]
  exact h f

end FailsFrom

section Lookups

variable {p : Processor} {i : Instruction} {position : Nat} {o : Operand} {f : Fault}

theorem argument_eq_ok (ho : i.operand? position = some o) : i.argument position = .ok o := by
  simp only [Instruction.argument, ho]

theorem registerAt_eq_error_iff (ho : i.operand? position = some o) :
    i.registerAt position = .error f ↔ (∀ r, o ≠ .register r) ∧ f = .notARegister o := by
  rw [Instruction.registerAt, argument_eq_ok ho]
  cases o with
  | register r => simp [bind, Except.bind, pure, Except.pure]
  | _ => simp [bind, Except.bind, throw, throwThe, MonadExceptOf.throw, eq_comm]

theorem value_eq_error_iff (hv : ∀ op, o ≠ .vectorOp op) : p.value o = .error f ↔
    ∃ name, o = .label name ∧ p.program.label? name = none ∧ f = .unknownLabel name := by
  cases o with
  | register | immediate => simp [Processor.value]
  | label name => cases hl : p.program.label? name <;> simp [Processor.value, hl, eq_comm]
  | vectorOp op => exact absurd rfl (hv op)

theorem target_eq_error_iff : p.target o = .error f ↔ p.value o = .error f := by
  cases o with
  | label name => cases hl : p.program.label? name <;> simp [Processor.target, Processor.value, hl]
  | _ => simp [Processor.target, Processor.value, Except.map]

theorem attached_eq_error_iff {op : Opcode} :
    p.attached op = .error f ↔ p.unit = none ∧ f = .noUnit op := by
  cases hu : p.unit <;> simp [Processor.attached, hu, eq_comm]

end Lookups

section Checks

variable {p : Processor} {i : Instruction} {position : Nat} {f : Fault}

theorem not_cause_zero (h : i.opcode.opClass ≠ .bridge) : ¬ Cause p i 0 f := by
  intro hc
  cases hc with
  | noUnit hb => exact h hb

theorem not_cause_of_lt {rank : Nat} (h : i.operands.length + 1 < rank) : ¬ Cause p i rank f := by
  intro hc
  cases hc with
  | noUnit => exact absurd h (Nat.not_lt_zero _)
  | notARegister => omega
  | unknownLabel _ ho =>
      have hlt := (List.getElem?_eq_some_iff.1 ho).1
      omega
  | divisionByZero => omega
  | busy => omega

theorem cause_register_iff {o : Operand} (h : i.opcode.namesRegister = true)
    (ho : i.operand? 0 = some o) :
    Cause p i 1 f ↔ (∀ r, o ≠ .register r) ∧ f = .notARegister o := by
  have hlt := (List.getElem?_eq_some_iff.1 ho).1
  constructor
  · intro hc
    generalize hrank : 1 = rank at hc
    cases hc with
    | noUnit => cases hrank
    | notARegister _ ho' hr =>
        cases ho.symm.trans ho'
        exact ⟨hr, rfl⟩
    | unknownLabel hle =>
        simp only [Opcode.firstValue, h, Bool.true_or, if_true] at hle
        omega
    | divisionByZero => omega
    | busy => omega
  · rintro ⟨hr, rfl⟩
    exact .notARegister h ho hr

theorem cause_value_iff {o : Operand} (h : i.opcode.firstValue ≤ position)
    (ho : i.operand? position = some o) : Cause p i (position + 1) f ↔
      ∃ name, o = .label name ∧ p.program.label? name = none ∧ f = .unknownLabel name := by
  have hlt := (List.getElem?_eq_some_iff.1 ho).1
  constructor
  · intro hc
    generalize hrank : position + 1 = rank at hc
    cases hc with
    | noUnit => cases hrank
    | notARegister hreg =>
        simp only [Opcode.firstValue, hreg, Bool.true_or, if_true] at h
        omega
    | @unknownLabel _ name _ ho' hl =>
        obtain rfl := Nat.succ.inj hrank
        cases ho.symm.trans ho'
        exact ⟨name, rfl, hl, rfl⟩
    | divisionByZero => omega
    | busy => omega
  · rintro ⟨name, rfl, hl, rfl⟩
    exact .unknownLabel h ho hl

theorem cause_last_iff : Cause p i (i.operands.length + 1) f ↔
    ((i.opcode = .alu .div ∨ i.opcode = .alu .mod) ∧ i.valueAt p 1 = .ok 0 ∧
      f = .divisionByZero) ∨
    (i.opcode = .gexec ∧ ∃ u job, p.unit = some u ∧ u.work.job? = some job ∧
      f = .refused (.busy job.op)) := by
  constructor
  · intro hc
    generalize hrank : i.operands.length + 1 = rank at hc
    cases hc with
    | noUnit => cases hrank
    | notARegister _ ho =>
        have hlt := (List.getElem?_eq_some_iff.1 ho).1
        omega
    | unknownLabel _ ho =>
        have hlt := (List.getElem?_eq_some_iff.1 ho).1
        omega
    | divisionByZero h hz => exact .inl ⟨h, hz, rfl⟩
    | busy h hu hj => exact .inr ⟨h, _, _, hu, hj, rfl⟩
  · rintro (⟨h, hz, rfl⟩ | ⟨h, u, job, hu, hj, rfl⟩)
    · exact .divisionByZero h hz
    · exact .busy h hu hj

end Checks

section Resolve

variable {p : Processor} {i : Instruction} {position : Nat}

theorem exists_operand (h : position < i.operands.length) : ∃ o, i.operand? position = some o :=
  ⟨_, List.getElem?_eq_getElem h⟩

theorem attached_checks {op : Opcode} (ho : i.opcode = op) (hb : op.opClass = .bridge) (f : Fault) :
    p.attached op = .error f ↔ Cause p i 0 f := by
  rw [attached_eq_error_iff]
  constructor
  · rintro ⟨hu, rfl⟩
    subst ho
    exact .noUnit hb hu
  · intro hc
    cases hc with
    | noUnit _ hu => exact ⟨hu, by rw [ho]⟩

theorem registerAt_checks (h : i.opcode.namesRegister = true) (hlt : 0 < i.operands.length)
    (f : Fault) : i.registerAt 0 = .error f ↔ Cause p i 1 f := by
  obtain ⟨o, ho⟩ := exists_operand hlt
  rw [registerAt_eq_error_iff ho, cause_register_iff h ho]

variable (hw : i.WellFormed)
include hw

theorem length_of_wellFormed {n : Nat} (h : i.opcode.arity = .exactly n) :
    i.operands.length = n := by
  simpa [h, Arity.accepts] using hw.count

theorem value_checks {o : Operand} (h : i.opcode.firstValue ≤ position)
    (ho : i.operand? position = some o) (f : Fault) :
    p.value o = .error f ↔ Cause p i (position + 1) f := by
  have hv (op : VectorOp) : o ≠ .vectorOp op := by
    rintro rfl
    obtain ⟨hop, rfl⟩ := (hw.vectorOp_iff position).1 ⟨op, ho⟩
    rw [hop] at h
    exact absurd h (by decide)
  rw [value_eq_error_iff hv, cause_value_iff h ho]

theorem valueAt_checks (h : i.opcode.firstValue ≤ position) (hlt : position < i.operands.length)
    (f : Fault) : i.valueAt p position = .error f ↔ Cause p i (position + 1) f := by
  obtain ⟨o, ho⟩ := exists_operand hlt
  rw [← value_checks hw h ho, Instruction.valueAt, argument_eq_ok ho]
  rfl

theorem targetAt_checks (h : i.opcode.firstValue ≤ position) (hlt : position < i.operands.length)
    (f : Fault) : i.targetAt p position = .error f ↔ Cause p i (position + 1) f := by
  obtain ⟨o, ho⟩ := exists_operand hlt
  rw [← value_checks hw h ho, ← target_eq_error_iff, Instruction.targetAt, argument_eq_ok ho]
  rfl

theorem primaryAt_checks (h : i.opcode.firstValue ≤ position) (hlt : position < i.operands.length)
    (f : Fault) : i.primaryAt p position = .error f ↔ Cause p i (position + 1) f := by
  rw [← valueAt_checks hw h hlt]
  exact bind_ok_eq_error_iff

theorem unitCellAt_checks (h : i.opcode.firstValue ≤ position)
    (hlt : position < i.operands.length) (f : Fault) :
    i.unitCellAt p position = .error f ↔ Cause p i (position + 1) f := by
  rw [← valueAt_checks hw h hlt]
  exact bind_ok_eq_error_iff

omit hw in
theorem failsFrom_last {α : Type} {rank : Nat} {x : Except Fault α}
    (hrank : rank = i.operands.length + 1)
    (hx : ∀ f, x = .error f ↔ Cause p i (i.operands.length + 1) f) :
    FailsFrom (Cause p i) rank x := by
  subst hrank
  exact .last hx fun m hm f => not_cause_of_lt hm

omit hw in
theorem failsFrom_done {α : Type} {rank : Nat} {a : α} (hrank : rank = i.operands.length + 1)
    (h : i.opcode ∉ [.alu .div, .alu .mod, .gexec]) : FailsFrom (Cause p i) rank (.ok a) := by
  refine failsFrom_last hrank fun f => ?_
  simp only [List.mem_cons, List.not_mem_nil, or_false, not_or] at h
  simp [cause_last_iff, h]

omit hw in
theorem compute_checks {op : AluOp} {x y : Word} (h : i.opcode.aluOp? = some op)
    (hy : op.unary = false → i.valueAt p 1 = .ok y) (f : Fault) :
    Processor.compute op x y = .error f ↔ Cause p i (i.operands.length + 1) f := by
  rw [compute_eq_error_iff, cause_last_iff]
  rcases Opcode.eq_of_aluOp? h with ho | ⟨ho, rfl⟩
  · by_cases hd : op = .div ∨ op = .mod
    · have hbinary : op.unary = false := by rcases hd with rfl | rfl <;> rfl
      simp [ho, hd, hy hbinary]
    · simp [ho, hd]
  · simp [ho]

theorem failsFrom_resolveAlu {op : AluOp} (h : i.opcode.aluOp? = some op) :
    FailsFrom (Cause p i) 1 (p.resolveAlu i op) := by
  have hreg : i.opcode.namesRegister = true ∧
      i.opcode.arity = .exactly (if op.unary then 1 else 2) := by
    rcases Opcode.eq_of_aluOp? h with ho | ⟨ho, rfl⟩ <;> rw [ho] <;> exact ⟨rfl, rfl⟩
  have hlen := length_of_wellFormed hw hreg.2
  have hpos : 0 < i.operands.length := by
    rw [hlen]
    split <;> decide
  have hvalue : i.opcode.firstValue ≤ 1 := by
    simp only [Opcode.firstValue]
    split <;> decide
  refine .bind (registerAt_checks hreg.1 hpos) fun r _ => ?_
  dsimp only
  split
  · rename_i hu
    rw [if_pos hu] at hlen
    refine .map (x := Processor.compute op (p.registers.read r) 0) (fun out => (r, out)) ?_
    refine failsFrom_last (by rw [hlen]) (compute_checks h fun hf => ?_)
    exact absurd hu (Bool.eq_false_iff.1 hf)
  · rename_i hu
    rw [if_neg hu] at hlen
    refine .bind (valueAt_checks hw hvalue (by omega)) fun y hy => ?_
    refine .map (fun out => (r, out)) ?_
    exact failsFrom_last (by rw [hlen]) (compute_checks h fun _ => hy)

omit hw in
theorem launch_checks {u : VectorUnit} {job : Job} (ho : i.opcode = .gexec)
    (hu : p.unit = some u) (f : Fault) :
    (match u.start job with
      | .ok _ => return .launch job
      | .error r => throw (.refused r) : Except Fault Action) = .error f ↔
      Cause p i (i.operands.length + 1) f := by
  have hlast : Cause p i (i.operands.length + 1) f ↔
      ∃ r, u.start job = .error r ∧ f = .refused r := by
    simp [cause_last_iff, ho, hu, VectorUnit.start_eq_error_iff]
  rw [hlast]
  split
  · rename_i hs
    constructor
    · intro h
      cases h
    · rintro ⟨r, hr, -⟩
      cases hs.symm.trans hr
  · rename_i r hs
    constructor
    · intro h
      cases h
      exact ⟨r, hs, rfl⟩
    · rintro ⟨_, hr, rfl⟩
      cases hs.symm.trans hr
      rfl

theorem failsFrom_resolveLaunch {u : VectorUnit} (ho : i.opcode = .gexec) (hu : p.unit = some u) :
    FailsFrom (Cause p i) 1 (p.resolveLaunch u i) := by
  obtain ⟨op, hop⟩ := (hw.vectorOp_iff 0).2 ⟨ho, rfl⟩
  have hlen : 4 ≤ i.operands.length ∧ i.operands.length ≤ 5 := by
    simpa [ho, Opcode.arity, Arity.accepts] using hw.count
  have hfirst : i.opcode.firstValue = 1 := by
    rw [ho]
    rfl
  have hskip (f : Fault) : ¬ Cause p i 1 f := by
    intro hc
    generalize hrank : 1 = rank at hc
    cases hc with
    | noUnit => cases hrank
    | notARegister h =>
        rw [ho] at h
        cases h
    | unknownLabel => omega
    | divisionByZero => omega
    | busy => omega
  have hvop : i.vectorOpAt 0 = .ok op := by
    rw [Instruction.vectorOpAt, argument_eq_ok hop]
    rfl
  refine .skip hskip ?_
  rw [Processor.resolveLaunch, hvop]
  refine .bind (x := i.unitCellAt p 1) (unitCellAt_checks hw (by omega) (by omega)) fun src _ => ?_
  refine .bind (unitCellAt_checks hw (by omega) (by omega)) fun dst _ => ?_
  refine .bind (valueAt_checks hw (by omega) (by omega)) fun len _ => ?_
  -- without a scalar, what comes after the operands comes a rank earlier
  cases hscalar : i.operand? 4 with
  | none =>
      have hlen4 := List.getElem?_eq_none_iff.1 hscalar
      rw [Instruction.valueAt?, hscalar]
      exact failsFrom_last (by omega) (launch_checks ho hu)
  | some o =>
      have hlen5 := (List.getElem?_eq_some_iff.1 hscalar).1
      rw [Instruction.valueAt?, hscalar]
      refine .bind ?_ fun scalar _ => failsFrom_last (by omega) (launch_checks ho hu)
      intro f
      rw [← value_checks hw (by omega) hscalar]
      change (p.value o).map some = .error f ↔ _
      cases p.value o <;> constructor <;> intro h <;> cases h <;> rfl

theorem failsFrom_inside (hb : i.opcode.opClass ≠ .bridge) :
    FailsFrom (Cause p i) 1 (p.resolve i) := by
  simp only [Processor.resolve]
  cases ho : i.opcode with
  | nop | hlt | ret =>
      have hlen : i.operands.length = 0 := length_of_wellFormed hw (by rw [ho]; rfl)
      exact failsFrom_done (by rw [hlen]) (by rw [ho]; decide)
  | mov | load =>
      have hlen : i.operands.length = 2 := length_of_wellFormed hw (by rw [ho]; rfl)
      refine .bind (registerAt_checks (by rw [ho]; rfl) (by omega)) fun r _ => ?_
      refine .bind (valueAt_checks hw (by rw [ho]; decide) (by omega)) fun w _ => ?_
      exact failsFrom_done (by rw [hlen]) (by rw [ho]; decide)
  | store =>
      have hlen : i.operands.length = 2 := length_of_wellFormed hw (by rw [ho]; rfl)
      refine .bind (registerAt_checks (by rw [ho]; rfl) (by omega)) fun r _ => ?_
      refine .bind (primaryAt_checks hw (by rw [ho]; decide) (by omega)) fun c _ => ?_
      exact failsFrom_done (by rw [hlen]) (by rw [ho]; decide)
  | alu op =>
      have hop : i.opcode.aluOp? = some op := by rw [ho]; rfl
      exact .map (fun ro => Action.latch (some ro.1) ro.2) (failsFrom_resolveAlu hw hop)
  | cmp =>
      have hop : i.opcode.aluOp? = some .sub := by rw [ho]; rfl
      exact .map (fun ro => Action.latch none ro.2) (failsFrom_resolveAlu hw hop)
  | jmp | call =>
      have hlen : i.operands.length = 1 := length_of_wellFormed hw (by rw [ho]; rfl)
      refine .bind (targetAt_checks hw (by rw [ho]; decide) (by omega)) fun target _ => ?_
      exact failsFrom_done (by rw [hlen]) (by rw [ho]; decide)
  | jumpIf c =>
      have hlen : i.operands.length = 1 := length_of_wellFormed hw (by rw [ho]; rfl)
      refine .bind (targetAt_checks hw (by rw [ho]; exact Nat.le_refl 0) (by omega)) fun t _ => ?_
      exact failsFrom_done (by rw [hlen]) (by rw [ho]; simp)
  | push =>
      have hlen : i.operands.length = 1 := length_of_wellFormed hw (by rw [ho]; rfl)
      refine .bind (valueAt_checks hw (by rw [ho]; decide) (by omega)) fun w _ => ?_
      exact failsFrom_done (by rw [hlen]) (by rw [ho]; decide)
  | pop =>
      have hlen : i.operands.length = 1 := length_of_wellFormed hw (by rw [ho]; rfl)
      refine .bind (registerAt_checks (by rw [ho]; rfl) (by omega)) fun r _ => ?_
      exact failsFrom_done (by rw [hlen]) (by rw [ho]; decide)
  | _ => exact absurd (by rw [ho]; rfl) hb

theorem failsFrom_bridge (hb : i.opcode.opClass = .bridge) :
    FailsFrom (Cause p i) 0 (p.resolve i) := by
  simp only [Processor.resolve]
  cases ho : i.opcode with
  | gload =>
      have hlen : i.operands.length = 3 := length_of_wellFormed hw (by rw [ho]; rfl)
      refine .bind (attached_checks ho rfl) fun u _ => ?_
      refine .bind (primaryAt_checks hw (by rw [ho]; decide) (by omega)) fun src _ => ?_
      refine .bind (unitCellAt_checks hw (by rw [ho]; decide) (by omega)) fun dst _ => ?_
      refine .bind (valueAt_checks hw (by rw [ho]; decide) (by omega)) fun len _ => ?_
      exact failsFrom_done (by rw [hlen]) (by rw [ho]; decide)
  | gstore =>
      have hlen : i.operands.length = 3 := length_of_wellFormed hw (by rw [ho]; rfl)
      refine .bind (attached_checks ho rfl) fun u _ => ?_
      refine .bind (unitCellAt_checks hw (by rw [ho]; decide) (by omega)) fun src _ => ?_
      refine .bind (primaryAt_checks hw (by rw [ho]; decide) (by omega)) fun dst _ => ?_
      refine .bind (valueAt_checks hw (by rw [ho]; decide) (by omega)) fun len _ => ?_
      exact failsFrom_done (by rw [hlen]) (by rw [ho]; decide)
  | gexec =>
      refine .bind (attached_checks ho rfl) fun u hu => ?_
      exact failsFrom_resolveLaunch hw ho (Processor.unit_of_attached hu)
  | gwait =>
      have hlen : i.operands.length = 0 := length_of_wellFormed hw (by rw [ho]; rfl)
      refine .bind (attached_checks ho rfl) fun u _ => ?_
      exact failsFrom_done (by rw [hlen]) (by rw [ho]; decide)
  | gres =>
      have hlen : i.operands.length = 1 := length_of_wellFormed hw (by rw [ho]; rfl)
      refine .bind (attached_checks ho rfl) fun u _ => ?_
      refine .bind (registerAt_checks (by rw [ho]; rfl) (by omega)) fun r _ => ?_
      exact failsFrom_done (by rw [hlen]) (by rw [ho]; decide)
  | gread =>
      have hlen : i.operands.length = 2 := length_of_wellFormed hw (by rw [ho]; rfl)
      refine .bind (attached_checks ho rfl) fun u _ => ?_
      refine .bind (registerAt_checks (by rw [ho]; rfl) (by omega)) fun r _ => ?_
      refine .bind (unitCellAt_checks hw (by rw [ho]; decide) (by omega)) fun c _ => ?_
      exact failsFrom_done (by rw [hlen]) (by rw [ho]; decide)
  | gwrite =>
      have hlen : i.operands.length = 2 := length_of_wellFormed hw (by rw [ho]; rfl)
      refine .bind (attached_checks ho rfl) fun u _ => ?_
      refine .bind (unitCellAt_checks hw (by rw [ho]; decide) (by omega)) fun c _ => ?_
      refine .bind (valueAt_checks hw (by rw [ho]; decide) (by omega)) fun w _ => ?_
      exact failsFrom_done (by rw [hlen]) (by rw [ho]; decide)
  | _ =>
      rw [ho] at hb
      cases hb

theorem failsFrom_resolve : FailsFrom (Cause p i) 0 (p.resolve i) := by
  by_cases hb : i.opcode.opClass = .bridge
  · exact failsFrom_bridge hw hb
  · exact .skip (fun f => not_cause_zero hb) (failsFrom_inside hw hb)

end Resolve

theorem exists_first {C : Nat → Fault → Prop} {n : Nat} {f : Fault} (h : C n f) :
    ∃ g m, C m g ∧ ∀ l < m, ∀ e, ¬ C l e := by
  induction n using Nat.strongRecOn generalizing f with
  | ind n ih =>
      by_cases he : ∃ m < n, ∃ g, C m g
      · obtain ⟨m, hm, g, hg⟩ := he
        exact ih m hm hg
      · exact ⟨f, n, h, fun l hl e hc => he ⟨l, hl, e, hc⟩⟩

namespace Processor

theorem exists_step_eq_commit {p : Processor} (hfit : p.FlightFits) (hr : p.halted = false)
    {text : String} {i : Instruction} (ht : p.program.instruction? p.pc = some text)
    (hi : Instruction.decode text = .ok i) : ∃ pc, p.step = p.commit pc i := by
  refine ⟨p.pc, step_eq_commit hfit ?_⟩
  rw [current?_of_text hr ht, hi]
  rfl

theorem faults_are_exact (p : Processor) (hp : Reachable p) (hr : p.halted = false) (text : String)
    (i : Instruction) (ht : p.program.instruction? p.pc = some text)
    (hi : Instruction.decode text = .ok i) :
    (∀ f, p.step.result = .faulted f ↔
      ∃ rank, Cause p i rank f ∧ ∀ lower < rank, ∀ g, ¬ Cause p i lower g) ∧
    ((∃ f, p.step.result = .faulted f) ↔ ∃ rank f, Cause p i rank f) ∧
    (i.opcode.opClass = .bridge → p.unit = none →
      p.step.result = .faulted (.noUnit i.opcode)) ∧
    (∀ o, p.step.result ≠ .faulted (.noValue o)) ∧
    (∀ j position, p.step.result ≠ .faulted (.missingOperand j position)) ∧
    ∀ op, p.step.result ≠ .faulted (.unhandled op) := by
  obtain ⟨pc, hstep⟩ := exists_step_eq_commit hp.flightFits hr ht hi
  have hfirst (f : Fault) : p.step.result = .faulted f ↔
      ∃ rank, Cause p i rank f ∧ ∀ lower < rank, ∀ g, ¬ Cause p i lower g := by
    have hfails := failsFrom_resolve (p := p) (Instruction.wellFormed_of_decode hi)
    rw [hstep, result_commit_eq_faulted_iff, hfails f]
    simp only [Nat.zero_le, true_and, forall_const]
  have hvalue (o : Operand) : p.step.result ≠ .faulted (.noValue o) := by
    intro hf
    obtain ⟨rank, hc, -⟩ := (hfirst _).1 hf
    cases hc
  refine ⟨hfirst, ?_, ?_, hvalue, ?_, fun op => hvalue _⟩
  · constructor
    · rintro ⟨f, hf⟩
      obtain ⟨rank, hc, -⟩ := (hfirst f).1 hf
      exact ⟨rank, f, hc⟩
    · rintro ⟨rank, f, hc⟩
      obtain ⟨g, m, hg⟩ := exists_first hc
      exact ⟨g, (hfirst g).2 ⟨m, hg⟩⟩
  · intro hb hu
    exact (hfirst _).2 ⟨0, .noUnit hb hu, fun lower hl => absurd hl (Nat.not_lt_zero lower)⟩
  · intro j position hf
    obtain ⟨rank, hc, -⟩ := (hfirst _).1 hf
    cases hc

def summing : Job := ⟨.sum, Cell.ofNat 0, Cell.ofNat 0, 4, none⟩

def overtaken : Processor :=
  (new {}).served [.load (.ofInstructions ["GEXEC ADD, 0, 8, 4, bias"]), .unit (.start summing)]

def overtakenLaunch : Instruction :=
  ⟨.gexec, [.vectorOp .add, .immediate 0, .immediate 8, .immediate 4, .label "bias"]⟩

theorem faults_are_exact_overtaken :
    Reachable overtaken ∧ overtaken.halted = false ∧
    overtaken.program.instruction? overtaken.pc = some "GEXEC ADD, 0, 8, 4, bias" ∧
    Instruction.decode "GEXEC ADD, 0, 8, 4, bias" = .ok overtakenLaunch ∧
    Cause overtaken overtakenLaunch 6 (.refused (.busy .sum)) ∧
    overtaken.step.result = .faulted (.unknownLabel "bias") ∧
    ∃ rank, Cause overtaken overtakenLaunch rank (.unknownLabel "bias") ∧
      ∀ lower < rank, ∀ g, ¬ Cause overtaken overtakenLaunch lower g := by
  have hp : Reachable overtaken := ⟨{}, _, rfl⟩
  have hi : Instruction.decode "GEXEC ADD, 0, 8, 4, bias" = .ok overtakenLaunch := by
    decide +kernel
  have hf : overtaken.step.result = .faulted (.unknownLabel "bias") := by decide +kernel
  have hbusy : Cause overtaken overtakenLaunch 6 (.refused (.busy .sum)) :=
    @Cause.busy overtaken overtakenLaunch _ summing rfl rfl rfl
  obtain ⟨hfirst, -⟩ := faults_are_exact overtaken hp rfl _ _ rfl hi
  exact ⟨hp, rfl, rfl, hi, hbusy, hf, (hfirst _).1 hf⟩

end Processor

end VectorMachine
