import VectorMachine.Proofs.Processor.Bare
import VectorMachine.Proofs.Processor.Flight
import VectorMachine.Proofs.Processor.Resolution

namespace VectorMachine

namespace Processor

def withUnit (p : Processor) (u : VectorUnit) : Processor :=
  { p with unit := some u }

section Fields

variable (p : Processor) (u : VectorUnit)

@[simp]
theorem unit_withUnit : (p.withUnit u).unit = some u := rfl

@[simp]
theorem memory_withUnit : (p.withUnit u).memory = p.memory := rfl

@[simp]
theorem halted_withUnit : (p.withUnit u).halted = p.halted := rfl

@[simp]
theorem flight_withUnit : (p.withUnit u).flight = p.flight := rfl

@[simp]
theorem program_withUnit : (p.withUnit u).program = p.program := rfl

@[simp]
theorem pc_withUnit : (p.withUnit u).pc = p.pc := rfl

end Fields

theorem withUnit_self {p : Processor} {u : VectorUnit} (h : p.unit = some u) :
    p.withUnit u = p := by
  rw [withUnit, ← h]

theorem value_withUnit (p : Processor) (u : VectorUnit) (o : Operand) :
    (p.withUnit u).value o = p.value o := by
  cases o <;> rfl

theorem target_withUnit (p : Processor) (u : VectorUnit) (o : Operand) :
    (p.withUnit u).target o = p.target o := by
  cases o <;> rfl

section Operands

variable (i : Instruction) (p : Processor) (u : VectorUnit) (position : Nat)

theorem valueAt_withUnit : i.valueAt (p.withUnit u) position = i.valueAt p position := by
  simp only [Instruction.valueAt, value_withUnit]

theorem targetAt_withUnit : i.targetAt (p.withUnit u) position = i.targetAt p position := by
  simp only [Instruction.targetAt, target_withUnit]

theorem primaryAt_withUnit : i.primaryAt (p.withUnit u) position = i.primaryAt p position := by
  simp only [Instruction.primaryAt, valueAt_withUnit]

theorem unitCellAt_withUnit : i.unitCellAt (p.withUnit u) position = i.unitCellAt p position := by
  simp only [Instruction.unitCellAt, valueAt_withUnit]

theorem valueAt?_withUnit : i.valueAt? (p.withUnit u) position = i.valueAt? p position := by
  simp only [Instruction.valueAt?, value_withUnit]

end Operands

theorem resolveAlu_withUnit (p : Processor) (u : VectorUnit) (i : Instruction) (op : AluOp) :
    (p.withUnit u).resolveAlu i op = p.resolveAlu i op := by
  simp only [resolveAlu, valueAt_withUnit]
  rfl

theorem attached_of_unit {p : Processor} {u : VectorUnit} (h : p.unit = some u) (op : Opcode) :
    p.attached op = .ok u := by
  simp only [attached, h]

end Processor

def Instruction.ViewsAlike (i : Instruction) (p : Processor) (u v : VectorUnit) : Prop :=
  match i.opcode with
  | .gexec => v.work.job? = u.work.job?
  | .gres => v.result = u.result
  | .gread => ∀ c, i.unitCellAt p 1 = .ok c → v.read c = u.read c
  | .gstore => ∀ src len, i.unitCellAt p 0 = .ok src → i.valueAt p 2 = .ok len →
      ∀ k, k < len.toNat → v.read (src.offset k) = u.read (src.offset k)
  | _ => True

namespace Processor

theorem resolveLaunch_withUnit {u v : VectorUnit} (h : v.work.job? = u.work.job?) (p : Processor)
    (i : Instruction) : (p.withUnit v).resolveLaunch v i = p.resolveLaunch u i := by
  simp only [resolveLaunch, launch, unitCellAt_withUnit, valueAt_withUnit, valueAt?_withUnit,
    VectorUnit.start_eq, h]
  cases u.work.job? <;> rfl

theorem resolve_withUnit {p : Processor} {u v : VectorUnit} {i : Instruction}
    (hu : p.unit = some u) (hv : i.ViewsAlike p u v) : (p.withUnit v).resolve i = p.resolve i := by
  have ha := attached_of_unit (unit_withUnit p v)
  have hb := attached_of_unit hu
  simp only [Instruction.ViewsAlike] at hv
  simp only [resolve, valueAt_withUnit, targetAt_withUnit, primaryAt_withUnit,
    unitCellAt_withUnit, resolveAlu_withUnit, ha, hb]
  cases ho : i.opcode with
  | gexec =>
      rw [ho] at hv
      exact resolveLaunch_withUnit hv p i
  | gres =>
      rw [ho] at hv
      have hr : v.result = u.result := hv
      simp only [bind, Except.bind, hr]
  | gread =>
      rw [ho] at hv
      cases hc : i.unitCellAt p 1 with
      | error f => rfl
      | ok c =>
          have hr := hv c hc
          cases hd : i.registerAt 0 with
          | error f => rfl
          | ok r => simp only [bind, Except.bind, pure, Except.pure, hr]
  | _ => rfl

end Processor

namespace Action

def onUnit (primary : Vector Word 256) : Action → VectorUnit → VectorUnit
  | .transferIn src dst len, u => (u.loadBlock primary src dst len).1
  | .transferOut _ _ len, u => (u.finishTransfer .toPrimary len).1
  | .launch job, u => Processor.launched u job
  | .drain, u => u.drain.unit
  | .poke a w, u => u.write a w
  | _, u => u

def ViewsAlike (a : Action) (u v : VectorUnit) : Prop :=
  match a with
  | .transferOut src _ len => ∀ k, k < len → v.read (src.offset k) = u.read (src.offset k)
  | _ => True

end Action

namespace VectorUnit

theorem copyOut_congr {size : Nat} {m n : Vector Word 128} {primary : Vector Word size}
    {src : UnitCell} {dst : PrimaryCell} {len : Nat}
    (h : ∀ k, k < len → m.get (src.offset k) = n.get (src.offset k)) :
    copyOut m primary src dst len = copyOut n primary src dst len := by
  induction len with
  | zero => rfl
  | succ len ih =>
      have hfirst := ih fun k hk => h k (Nat.lt_succ_of_lt hk)
      have hlast := h len (Nat.lt_succ_self len)
      simp only [copyOut] at hfirst ⊢
      rw [Nat.fold_succ, Nat.fold_succ, hfirst, hlast]

end VectorUnit

namespace Action

def reachesUnit : Action → Bool
  | .transferIn .. | .transferOut .. | .launch _ | .drain | .poke .. => true
  | _ => false

theorem onUnit_of_not_reachesUnit {a : Action} (h : a.reachesUnit = false)
    (primary : Vector Word 256) (u : VectorUnit) : a.onUnit primary u = u := by
  cases a <;> first | rfl | cases h

end Action

namespace Processor

inductive Bridges (p : Processor) (i : Instruction) : Action → Prop where
  | load {src : PrimaryCell} {dst : UnitCell} {len : Word} (h : i.opcode = .gload)
      (hd : i.unitCellAt p 1 = .ok dst) (hl : i.valueAt p 2 = .ok len) :
      Bridges p i (.transferIn src dst len.toNat)
  | store {src : UnitCell} {dst : PrimaryCell} {len : Word} (h : i.opcode = .gstore)
      (hs : i.unitCellAt p 0 = .ok src) (hl : i.valueAt p 2 = .ok len) :
      Bridges p i (.transferOut src dst len.toNat)
  | launch {job : Job} (h : i.opcode = .gexec) : Bridges p i (.launch job)
  | drain (h : i.opcode = .gwait) : Bridges p i .drain
  | poke {a : UnitCell} {w : Word} (h : i.opcode = .gwrite) (ha : i.unitCellAt p 0 = .ok a) :
      Bridges p i (.poke a w)
  | inside {a : Action} (h : a.reachesUnit = false) : Bridges p i a

theorem Resolved.bridges {p : Processor} {i : Instruction} {a : Action} (h : Resolved p i a) :
    Bridges p i a := by
  cases h with
  | gload ho hd hl => exact .load ho hd hl
  | gstore ho hs hl => exact .store ho hs hl
  | gexec ho => exact .launch ho
  | gwait ho => exact .drain ho
  | gwrite ho hu ha => exact .poke ho ha
  | _ => exact .inside rfl

theorem effect_withUnit {p : Processor} {u v : VectorUnit} {a : Action} (hu : p.unit = some u)
    (ha : a.ViewsAlike u v) (pc : Nat) :
    ((p.withUnit v).effect pc a).1 = (p.effect pc a).1.withUnit (a.onUnit p.memory v) := by
  cases a with
  | latch r out => cases r <;> rfl
  | transferIn src dst len =>
      simp only [effect, onUnit, hu]
      rfl
  | transferOut src dst len =>
      have hc : VectorUnit.copyOut v.memory p.memory src dst len =
          VectorUnit.copyOut u.memory p.memory src dst len := VectorUnit.copyOut_congr ha
      simp only [effect, hu, unit_withUnit, memory_withUnit, VectorUnit.storeBlock, hc]
      rfl
  | launch job =>
      simp only [effect, onUnit, hu]
      rfl
  | drain =>
      simp only [effect, onUnit, hu]
      rfl
  | poke c w =>
      simp only [effect, onUnit, hu]
      rfl
  | _ => rfl

theorem unit_effect {p : Processor} {u : VectorUnit} (hu : p.unit = some u) (pc : Nat)
    (a : Action) : (p.effect pc a).1.unit = some (a.onUnit p.memory u) := by
  cases a with
  | latch r out => cases r <;> exact hu
  | transferIn src dst len => simp only [effect, onUnit, hu, Action.onUnit]
  | transferOut src dst len => simp only [effect, hu, Action.onUnit, VectorUnit.storeBlock]
  | launch job => simp only [effect, onUnit, hu, Action.onUnit]
  | drain => simp only [effect, onUnit, hu, Action.onUnit]
  | poke c w => simp only [effect, onUnit, hu, Action.onUnit]
  | _ => exact hu

theorem nextPc_withUnit (p : Processor) (u : VectorUnit) (pc : Nat) (a : Action) :
    (p.withUnit u).nextPc pc a = p.nextPc pc a := by
  cases a <;> rfl

theorem settle_withUnit {p : Processor} {u v : VectorUnit} {a : Action} (hu : p.unit = some u)
    (ha : a.ViewsAlike u v) (pc : Nat) :
    ((p.withUnit v).settle pc a).1 = (p.settle pc a).1.withUnit (a.onUnit p.memory v) := by
  simp only [settle, effect_withUnit hu ha, nextPc_withUnit]
  rfl

structure Turn.Matches (s t : Turn) (f : VectorUnit → VectorUnit) (u v : VectorUnit) : Prop where
  result : s.result = t.result
  next : s.next = t.next.withUnit (f v)
  unit : t.next.unit = some (f u)

theorem matches_perform {p : Processor} {u v : VectorUnit} {a : Action} (hu : p.unit = some u)
    (ha : a.ViewsAlike u v) (pc : Nat) (k : OpClass) :
    ((p.withUnit v).perform pc k a).Matches (p.perform pc k a) (a.onUnit p.memory) u v := by
  have hs := settle_withUnit hu ha pc
  have hf := unit_effect hu pc a
  constructor
  · simp only [perform, result_finish, hs]
    rfl
  · simp only [perform, next_finish, hs]
    rfl
  · simp only [perform, next_finish]
    exact hf

theorem matches_fail {p : Processor} {u : VectorUnit} (hu : p.unit = some u) (v : VectorUnit)
    (f : Fault) : ((p.withUnit v).fail f).Matches (p.fail f) id u v :=
  ⟨rfl, rfl, hu⟩

theorem resolve_landed (p : Processor) (i : Instruction) :
    { p with flight := none }.resolve i = p.resolve i :=
  (resolve_bare { p with flight := none } i).symm.trans (resolve_bare p i)

def unitAfter (p : Processor) (i : Instruction) : VectorUnit → VectorUnit :=
  match p.resolve i with
  | .ok a => a.onUnit p.memory
  | .error _ => id

theorem unitAfter_of_bare_eq {p q : Processor} (h : p.bare = q.bare) (i : Instruction) :
    p.unitAfter i = q.unitAfter i := by
  have hm : p.memory = q.memory := congrArg (fun r => r.memory) h
  rw [unitAfter, unitAfter, ← resolve_bare p, ← resolve_bare q, h, hm]

theorem action_viewsAlike {p : Processor} {u v : VectorUnit} {i : Instruction} {a : Action}
    (h : Bridges p i a) (hv : i.ViewsAlike p u v) : a.ViewsAlike u v := by
  cases h with
  | store ho hs hl =>
      rw [Instruction.ViewsAlike, ho] at hv
      exact hv _ _ hs hl
  | inside h =>
      cases a with
      | transferOut => cases h
      | _ => trivial
  | _ => trivial

theorem matches_commit {p : Processor} {u v : VectorUnit} {i : Instruction} (hu : p.unit = some u)
    (hv : i.ViewsAlike p u v) (pc : Nat) :
    ((p.withUnit v).commit pc i).Matches (p.commit pc i) (p.unitAfter i) u v := by
  have hr : { p.withUnit v with flight := none }.resolve i = p.resolve i :=
    (resolve_landed _ i).trans (resolve_withUnit hu hv)
  simp only [commit_eq, hr, resolve_landed p, unitAfter]
  cases ha : p.resolve i with
  | error f => exact matches_fail (p := { p with flight := none }) hu v f
  | ok a =>
      have hb := action_viewsAlike ((resolved_of_resolve ha).bridges) hv
      exact matches_perform (p := { p with flight := none }) hu hb pc _

def current? (p : Processor) : Option Instruction :=
  if p.halted then none
  else (p.program.instruction? p.pc).bind fun text => (Instruction.decode text).toOption

def unitNext (p : Processor) : VectorUnit → VectorUnit :=
  match p.current? with
  | some i => p.unitAfter i
  | none => id

theorem current?_of_text {p : Processor} {text : String} (hr : p.halted = false)
    (ht : p.program.instruction? p.pc = some text) :
    p.current? = (Instruction.decode text).toOption := by
  simp [current?, hr, ht]

theorem current?_of_fits {p : Processor} {f : Flight} (h : f.Fits p) :
    p.current? = (Instruction.decode f.text).toOption :=
  current?_of_text h.running h.text_eq

section Calls

variable {p : Processor} {u v : VectorUnit} {i : Instruction}

theorem current?_of_decoded {pc : Nat} {text : String} {stage : Stage} {plan : List MicroOp}
    (h : (Flight.mk pc text (some i) plan stage).Fits p) : p.current? = some i := by
  rw [current?_of_fits h, h.planned.1]
  rfl

theorem unitNext_of_some (h : p.current? = some i) : p.unitNext = p.unitAfter i := by
  rw [unitNext, h]

theorem unitNext_of_none (h : p.current? = none) : p.unitNext = id := by
  rw [unitNext, h]

theorem unitNext_of_halted (h : p.halted = true) : p.unitNext = id :=
  unitNext_of_none (by simp [current?, h])

theorem unitNext_of_end (h : p.program.instruction? p.pc = none) : p.unitNext = id :=
  unitNext_of_none (by simp [current?, h])

theorem unitNext_cases (p : Processor) : p.unitNext = id ∨ ∃ i a, p.current? = some i ∧
    p.resolve i = .ok a ∧ p.unitNext = a.onUnit p.memory := by
  cases hi : p.current? with
  | none => exact .inl (unitNext_of_none hi)
  | some i =>
      rw [unitNext_of_some hi, unitAfter]
      cases ha : p.resolve i with
      | error f => exact .inl rfl
      | ok a => exact .inr ⟨i, a, rfl, ha, rfl⟩

theorem matches_commitText {text : String} (hc : p.current? = (Instruction.decode text).toOption)
    (hu : p.unit = some u) (hv : ∀ i, p.current? = some i → i.ViewsAlike p u v) (pc : Nat) :
    ((p.withUnit v).commitText pc text).Matches (p.commitText pc text) p.unitNext u v := by
  simp only [commitText]
  cases hd : Instruction.decode text with
  | error e =>
      rw [unitNext_of_none (by rw [hc, hd]; rfl)]
      exact matches_fail hu v _
  | ok i =>
      have hi : p.current? = some i := by rw [hc, hd]; rfl
      rw [unitNext_of_some hi]
      exact matches_commit hu (hv i hi) pc

theorem matches_step (hfit : p.FlightFits) (hu : p.unit = some u)
    (hv : ∀ i, p.current? = some i → i.ViewsAlike p u v) :
    (p.withUnit v).step.Matches p.step p.unitNext u v := by
  simp only [step]
  rw [halted_withUnit, flight_withUnit, program_withUnit, pc_withUnit]
  by_cases hh : p.halted = true
  · simp only [if_pos hh, unitNext_of_halted hh]
    exact ⟨rfl, rfl, hu⟩
  · have hr : p.halted = false := by simpa using hh
    simp only [if_neg hh]
    cases hf : p.flight with
    | none =>
        cases ht : p.program.instruction? p.pc with
        | none =>
            rw [unitNext_of_end ht]
            exact ⟨rfl, rfl, hu⟩
        | some text => exact matches_commitText (current?_of_text hr ht) hu hv p.pc
    | some flight =>
        have hfits := hfit _ hf
        cases flight with
        | undecoded pc text plan stage => exact matches_commitText (current?_of_fits hfits) hu hv pc
        | decoded pc text i plan stage =>
            have hi := current?_of_decoded hfits
            rw [unitNext_of_some hi]
            exact matches_commit hu (hv i hi) pc

end Calls

end Processor

end VectorMachine
