import VectorMachine.Proofs.Processor.Commits
import VectorMachine.Proofs.Processor.Requests
import VectorMachine.Proofs.VectorUnit.Copies

namespace VectorMachine

namespace Opcode

def fillsRegister : Opcode → Bool
  | .alu _ | .mov | .load | .pop | .gres | .gread => true
  | _ => false

def stackShift : Opcode → Int
  | .push | .call => -1
  | .pop | .ret => 1
  | _ => 0

end Opcode

namespace Instruction

def WritesPrimary (i : Instruction) (p : Processor) (c : PrimaryCell) : Prop :=
  match i.opcode with
  | .store => i.primaryAt p 1 = .ok c
  | .push | .call => c = p.sp
  | .gstore => ∃ dst len, i.primaryAt p 1 = .ok dst ∧ i.valueAt p 2 = .ok len ∧
      ∃ k, k < len.toNat ∧ dst.offset k = c
  | _ => False

def WritesUnit (i : Instruction) (p : Processor) (c : UnitCell) : Prop :=
  match i.opcode with
  | .gwrite => i.unitCellAt p 0 = .ok c
  | .gload => ∃ dst len, i.unitCellAt p 1 = .ok dst ∧ i.valueAt p 2 = .ok len ∧
      ∃ k, k < len.toNat ∧ dst.offset k = c
  | _ => False

def FramesUnit (i : Instruction) (p : Processor) (u v : VectorUnit) : Prop :=
  match i.opcode with
  | .gload => ∃ len, i.valueAt p 2 = .ok len ∧
      v = { u with
        memory := v.memory
        counters := { u.counters with
          wordsTransferred := u.counters.wordsTransferred + len.toNat } } ∧
      ∀ c, v.read c ≠ u.read c → i.WritesUnit p c
  | .gstore => ∃ len, i.valueAt p 2 = .ok len ∧
      v = { u with
        counters := { u.counters with
          wordsTransferred := u.counters.wordsTransferred + len.toNat } }
  | .gexec => ∃ job, u.work = .idle ∧ v = { u with work := .queued job } ∧
      v.snapshot = { u.snapshot with pending := some job, busy := true }
  | .gwait => True
  | .gwrite => v = { u with memory := v.memory } ∧ ∀ c, v.read c ≠ u.read c → i.WritesUnit p c
  | _ => v = u

end Instruction

namespace Processor

def fallsThrough (p : Processor) : Opcode → Bool
  | .jmp | .call | .ret | .hlt => false
  | .jumpIf c => !p.flags.satisfies c
  | _ => true

structure Framed (i : Instruction) (p q : Processor) : Prop where
  flags : i.opcode.opClass ≠ .alu → q.flags = p.flags
  registers : ∀ r, q.registers.read r ≠ p.registers.read r →
    i.opcode.fillsRegister = true ∧ i.operand? 0 = some (.register r)
  memory : ∀ c, q.memory.get c ≠ p.memory.get c → i.WritesPrimary p c
  sp : (q.sp.val : Int) = (p.sp.val + i.opcode.stackShift) % 256
  pc : p.fallsThrough i.opcode = true → q.pc = p.pc + 1
  pc_halt : i.opcode = .hlt → q.pc = p.pc
  unit : ∀ u, p.unit = some u → ∃ v, q.unit = some v ∧ i.FramesUnit p u v
  no_unit : p.unit = none → q.unit = none
  program : q.program = p.program
  listeners : q.listeners = p.listeners
  lastFault : q.lastFault = p.lastFault
  tracing : q.tracing = p.tracing

end Processor

namespace Action

def setsFlags : Action → Bool
  | .latch _ _ => true
  | _ => false

def register? : Action → Option Register
  | .assign r _ | .pop r => some r
  | .latch r _ => r
  | _ => none

def Writes (sp : PrimaryCell) : Action → PrimaryCell → Prop
  | .store a _, c => c = a
  | .push _, c | .call _, c => c = sp
  | .transferOut _ dst len, c => ∃ k, k < len ∧ dst.offset k = c
  | _, _ => False

def stackShift : Action → Int
  | .push _ | .call _ => -1
  | .pop _ | .ret => 1
  | _ => 0

end Action

theorem Cell.intCast_val_pred (a : PrimaryCell) : (a.pred.val : Int) = (a.val + (-1)) % 256 := by
  have h := a.isLt
  simp only [val_pred]
  omega

theorem Cell.intCast_val_offset_one (a : PrimaryCell) :
    ((a.offset 1).val : Int) = (a.val + 1) % 256 := by
  simp only [val_offset]
  omega

theorem Cell.intCast_val (a : PrimaryCell) : (a.val : Int) = (a.val + 0) % 256 := by
  have h := a.isLt
  omega

namespace Processor

section Effect

variable {p : Processor} {pc : Nat} {a : Action}

theorem fst_onUnit (p : Processor) (f : VectorUnit → VectorUnit × List VectorUnit.Event) :
    (p.onUnit f).1 = { p with unit := p.unit.map fun u => (f u).1 } := by
  unfold onUnit
  cases hu : p.unit with
  | none =>
      have hp : p = { p with unit := none } := by rw [← hu]
      exact hp
  | some u => rfl

theorem flags_effect (h : a.setsFlags = false) : (p.effect pc a).1.flags = p.flags := by
  cases a with
  | latch r out => cases h
  | transferIn | launch | drain | poke => simp only [effect, fst_onUnit]
  | transferOut src dst len =>
      simp only [effect]
      split <;> rfl
  | _ => rfl

theorem registers_effect {r : Register} (h : a.register? ≠ some r) :
    (p.effect pc a).1.registers.read r = p.registers.read r := by
  have hother {s : Register} (q : Processor) (w : Word) (hs : some s ≠ some r) :
      (q.setRegister s w).registers.read r = q.registers.read r :=
    (Registers.read_write _ _ _ _).trans (if_neg fun he => hs (congrArg some he.symm))
  cases a with
  | assign s w => exact hother p w h
  | latch s out =>
      cases s with
      | none => rfl
      | some s => exact hother p out.value h
  | pop s => exact hother p.drop p.top h
  | transferIn | launch | drain | poke => simp only [effect, fst_onUnit]
  | transferOut src dst len =>
      simp only [effect]
      split <;> rfl
  | _ => rfl

theorem memory_effect {c : PrimaryCell} (h : ¬ a.Writes p.sp c) :
    (p.effect pc a).1.memory.get c = p.memory.get c := by
  cases a with
  | store s w => exact VectorUnit.get_put_of_ne h w p.memory
  | push w => exact VectorUnit.get_put_of_ne h w p.memory
  | call target => exact VectorUnit.get_put_of_ne h _ p.memory
  | latch r out => cases r <;> rfl
  | transferIn | launch | drain | poke => simp only [effect, fst_onUnit]
  | transferOut src dst len =>
      simp only [effect]
      split
      · rfl
      · exact VectorUnit.get_copyOut_of_ne fun k hk he => h ⟨k, hk, he⟩
  | _ => rfl

theorem sp_effect (p : Processor) (pc : Nat) (a : Action) :
    ((p.effect pc a).1.sp.val : Int) = (p.sp.val + a.stackShift) % 256 := by
  have hkeep := Cell.intCast_val p.sp
  cases a with
  | push | call => exact Cell.intCast_val_pred p.sp
  | pop | ret => exact Cell.intCast_val_offset_one p.sp
  | latch r out => cases r <;> exact hkeep
  | transferIn | launch | drain | poke =>
      simp only [effect, fst_onUnit]
      exact hkeep
  | transferOut src dst len =>
      simp only [effect]
      split <;> exact hkeep
  | _ => exact hkeep

theorem no_unit_effect (h : p.unit = none) : (p.effect pc a).1.unit = none := by
  cases a with
  | latch r out => cases r <;> exact h
  | transferIn | launch | drain | poke => simp only [effect, fst_onUnit, h, Option.map_none]
  | transferOut src dst len => simp only [effect, h]
  | _ => exact h

theorem unit_effect_eq (p : Processor) (pc : Nat) (a : Action) :
    (p.effect pc a).1.unit = p.unit.map (a.onUnit p.memory) := by
  cases hu : p.unit with
  | none => exact no_unit_effect hu
  | some u => exact unit_effect hu pc a

theorem constants_effect (p : Processor) (pc : Nat) (a : Action) :
    (p.effect pc a).1.program = p.program ∧ (p.effect pc a).1.lastFault = p.lastFault ∧
      (p.effect pc a).1.tracing = p.tracing := by
  cases a with
  | latch r out => cases r <;> exact ⟨rfl, rfl, rfl⟩
  | transferIn | launch | drain | poke => simp only [effect, fst_onUnit, and_self]
  | transferOut src dst len =>
      simp only [effect]
      split <;> exact ⟨rfl, rfl, rfl⟩
  | _ => exact ⟨rfl, rfl, rfl⟩

end Effect

theorem unit_of_commits {p : Processor} {pace : Pace} {i : Instruction} {a : Action}
    (h : Commits p pace i a) :
    (p.advance pace).next.unit = p.unit.map (a.onUnit p.memory) := by
  have hnext : (p.advance pace).next.unit = (p.afterAction i a).unit :=
    congrArg (fun q => q.unit) h.next
  exact hnext.trans (unit_effect_eq { p with flight := none } p.pc a)

namespace Resolved

variable {p : Processor} {i : Instruction} {a : Action}

theorem setsFlags_eq (h : Resolved p i a) : a.setsFlags = decide (i.opcode.opClass = .alu) := by
  cases h with
  | gexec ho | nop ho | hlt ho | mov ho | load ho | store ho | alu ho | cmp ho | jmp ho | taken ho
  | notTaken ho | call ho | ret ho | push ho | pop ho | gload ho | gstore ho | gwait ho | gres ho
  | gread ho | gwrite ho =>
      rw [ho]
      rfl

theorem stackShift_eq (h : Resolved p i a) : a.stackShift = i.opcode.stackShift := by
  cases h with
  | gexec ho | nop ho | hlt ho | mov ho | load ho | store ho | alu ho | cmp ho | jmp ho | taken ho
  | notTaken ho | call ho | ret ho | push ho | pop ho | gload ho | gstore ho | gwait ho | gres ho
  | gread ho | gwrite ho =>
      rw [ho]
      rfl

theorem operand?_of_register? (h : Resolved p i a) {r : Register} (hr : a.register? = some r) :
    i.opcode.fillsRegister = true ∧ i.operand? 0 = some (.register r) := by
  cases h with
  | mov ho hreg | load ho hreg | pop ho hreg | gres ho _ hreg | gread ho _ hreg =>
      cases hr
      exact ⟨by rw [ho]; rfl, operand?_of_registerAt hreg⟩
  | alu ho hout =>
      cases hr
      exact ⟨by rw [ho]; rfl, operand?_of_registerAt (aluOutput?_of_resolveAlu hout).1⟩
  | _ => cases hr

theorem nextPc_eq (h : Resolved p i a) (pc : Nat) :
    (p.fallsThrough i.opcode = true → p.nextPc pc a = pc + 1) ∧
      (i.opcode = .hlt → p.nextPc pc a = p.pc) := by
  cases h with
  | taken ho _ hc =>
      rw [ho]
      simp [fallsThrough, hc]
  | gexec ho | nop ho | hlt ho | mov ho | load ho | store ho | alu ho | cmp ho | jmp ho
  | notTaken ho | call ho | ret ho | push ho | pop ho | gload ho | gstore ho | gwait ho | gres ho
  | gread ho | gwrite ho =>
      rw [ho]
      simp [fallsThrough, nextPc]

end Resolved

section Frame

variable {p : Processor} {i : Instruction} {a : Action}

theorem primaryAt_of_resolve {src : UnitCell} {dst : PrimaryCell} {len : Nat}
    (ho : i.opcode = .gstore) (h : p.resolve i = .ok (.transferOut src dst len)) :
    i.primaryAt p 1 = .ok dst := by
  simp only [resolve, ho] at h
  obtain ⟨_, _, h⟩ := exists_of_bind_eq_ok h
  obtain ⟨_, _, h⟩ := exists_of_bind_eq_ok h
  obtain ⟨dst', hd, h⟩ := exists_of_bind_eq_ok h
  obtain ⟨_, _, h⟩ := exists_of_bind_eq_ok h
  cases h
  exact hd

theorem writesPrimary_of_writes (h : p.resolve i = .ok a) {c : PrimaryCell}
    (hc : a.Writes p.sp c) : i.WritesPrimary p c := by
  rw [Instruction.WritesPrimary]
  cases resolved_of_resolve h with
  | store ho _ ha =>
      rw [ho]
      obtain rfl : c = _ := hc
      exact ha
  | push ho | call ho =>
      rw [ho]
      exact hc
  | gstore ho _ hl =>
      rw [ho]
      exact ⟨_, _, primaryAt_of_resolve ho h, hl, hc⟩
  | _ => exact hc.elim

theorem snapshot_queued {u : VectorUnit} (h : u.work = .idle) (job : Job) :
    { u with work := .queued job }.snapshot =
      { u.snapshot with pending := some job, busy := true } := by
  simp only [VectorUnit.snapshot, h]
  rfl

theorem Resolved.framesUnit (h : Resolved p i a) {u : VectorUnit} (hu : p.unit = some u) :
    i.FramesUnit p u (a.onUnit p.memory u) := by
  rw [Instruction.FramesUnit]
  cases h with
  | gload ho hd hl =>
      rw [ho]
      refine ⟨_, hl, rfl, fun c hc => ?_⟩
      rw [Instruction.WritesUnit, ho]
      refine ⟨_, _, hd, hl, Classical.byContradiction fun hout => ?_⟩
      exact hc (VectorUnit.get_copyIn_of_ne fun k hk he => hout ⟨k, hk, he⟩)
  | gstore ho _ hl =>
      rw [ho]
      exact ⟨_, hl, rfl⟩
  | gexec ho hu' _ hs =>
      obtain rfl : u = _ := Option.some.inj (hu.symm.trans hu')
      obtain ⟨hw, rfl⟩ := VectorUnit.start_eq_ok_iff.1 hs
      rw [ho]
      simp only [Action.onUnit, launched, hs]
      exact ⟨_, hw, rfl, snapshot_queued hw _⟩
  | gwait ho =>
      rw [ho]
      trivial
  | gwrite ho _ ha =>
      rw [ho]
      refine ⟨rfl, fun c hc => ?_⟩
      rw [Instruction.WritesUnit, ho]
      refine Classical.byContradiction fun hne => ?_
      refine hc (VectorUnit.get_put_of_ne ?_ _ _)
      rintro rfl
      exact hne ha
  | nop ho | hlt ho | mov ho | load ho | store ho | alu ho | cmp ho | jmp ho | taken ho
  | notTaken ho | call ho | ret ho | push ho | pop ho | gres ho | gread ho =>
      rw [ho]
      rfl

theorem framed_afterAction (h : p.resolve i = .ok a) : Framed i p (p.afterAction i a) := by
  have hr := resolved_of_resolve h
  let landed : Processor := { p with flight := none }
  obtain ⟨hprogram, hfault, htracing⟩ := constants_effect landed p.pc a
  constructor
  case flags =>
    intro hop
    have hflags : a.setsFlags = false := by rw [hr.setsFlags_eq, decide_eq_false hop]
    exact flags_effect (p := landed) hflags
  case registers =>
    intro r hne
    refine hr.operand?_of_register? (Classical.byContradiction fun hout => hne ?_)
    exact registers_effect (p := landed) hout
  case memory =>
    intro c hne
    refine writesPrimary_of_writes h (Classical.byContradiction fun hout => hne ?_)
    exact memory_effect (p := landed) hout
  case sp =>
    rw [← hr.stackShift_eq]
    exact sp_effect landed p.pc a
  case pc => exact (hr.nextPc_eq p.pc).1
  case pc_halt => exact (hr.nextPc_eq p.pc).2
  case unit =>
    intro u hu
    exact ⟨_, unit_effect (p := landed) hu p.pc a, hr.framesUnit hu⟩
  case no_unit => exact no_unit_effect (p := landed)
  case program => exact hprogram
  case listeners => exact listeners_settle landed p.pc a
  case lastFault => exact hfault
  case tracing => exact htracing

theorem Framed.of_bare_eq {q r : Processor} (h : Framed i p q) (hb : r.bare = q.bare) :
    Framed i p r := by
  rw [show r = { q with
    halted := r.halted
    flight := r.flight
    lastFault := r.lastFault
    counters := r.counters } from rests_of_bare_eq hb]
  have hfault : r.lastFault = q.lastFault := congrArg (fun s => s.lastFault) hb
  obtain ⟨flags, registers, memory, sp, pc, pc_halt, unit, no_unit, program, listeners, lastFault,
    tracing⟩ := h
  exact ⟨flags, registers, memory, sp, pc, pc_halt, unit, no_unit, program, listeners,
    hfault.trans lastFault, tracing⟩

end Frame

theorem committed_is_framed (p : Processor) (hp : Reachable p) (pace : Pace) (i : Instruction)
    (hi : p.current? = some i)
    (hc : (p.advance pace).result = .committed ∨ (p.advance pace).result = .halted) :
    Framed i p (p.advance pace).next := by
  have hadvanced : (p.advance pace).result.isAdvanced = false := by
    rcases hc with hc | hc <;> rw [hc] <;> rfl
  have hfault (f : Fault) : (p.advance pace).result ≠ .faulted f := by
    rcases hc with hc | hc <;> rw [hc] <;> exact Progress.noConfusion
  obtain ⟨a, ha⟩ := commits_of_current hp.flightFits hi hadvanced hfault
  exact (framed_afterAction ha.resolve).of_bare_eq ha.next

def spill : Instruction := ⟨.gstore, [.immediate 126, .immediate 254, .immediate 4]⟩

def spilling : Processor :=
  let program := ["GWRITE 126, 7", "GSTORE 126, 254, 4"]
  let calls := [.whole, .micro, .micro, .micro].map Request.call
  (new {}).served (.load (.ofInstructions program) :: .writeMemory (Cell.ofNat 2) 5 :: calls)

theorem committed_is_framed_spilling :
    Reachable spilling ∧ spilling.current? = some spill ∧
      (spilling.advance .micro).result = .committed ∧
      Framed spill spilling (spilling.advance .micro).next ∧
      spilling.memory.get (Cell.ofNat 254) = 0 ∧
      (spilling.advance .micro).next.memory.get (Cell.ofNat 254) = 7 ∧
      (spilling.advance .micro).next.memory.get (Cell.ofNat 2) = 5 := by
  have hp : Reachable spilling := ⟨{}, _, rfl⟩
  have hi : spilling.current? = some spill := by decide +kernel
  have hc : (spilling.advance .micro).result = .committed := by decide +kernel
  refine ⟨hp, hi, hc, committed_is_framed spilling hp .micro spill hi (.inl hc), ?_, ?_, ?_⟩
  · decide +kernel
  · decide +kernel
  · decide +kernel

end Processor

end VectorMachine
