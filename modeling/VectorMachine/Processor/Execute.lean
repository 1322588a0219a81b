import VectorMachine.Processor.Action

namespace VectorMachine

inductive Flow where
  | next
  | jump (target : Nat)
  | halt
  deriving DecidableEq, Repr

structure Execution where
  processor : Processor
  events : List Event
  deriving DecidableEq, Repr

/-- A fault keeps the state that the execution had come to. -/
abbrev Exec := EStateM Fault Execution

namespace Exec

variable {α : Type}

def look (f : Processor → Except Fault α) : Exec α := fun e =>
  match f e.processor with
  | .ok a => .ok a e
  | .error fault => .error fault e

def change (f : Processor → Processor) : Exec Unit := fun e =>
  .ok () { e with processor := f e.processor }

def onUnit (f : Processor → VectorUnit → Processor × VectorUnit × List VectorUnit.Event) :
    Exec Unit := fun e =>
  match e.processor.unit with
  | none => .ok () e
  | some u =>
      let (p, after, events) := f e.processor u
      .ok () ⟨{ p with unit := some after }, e.events ++ events.map .unit⟩

def queue (job : Job) : Exec Unit := fun e =>
  match e.processor.unit with
  | none => .ok () e
  | some u =>
      match VectorUnit.queue job u with
      | .ok _ after => .ok () { e with processor := { e.processor with unit := some after } }
      | .error r after =>
          .error (.refused r) { e with processor := { e.processor with unit := some after } }

def push (w : Word) : Exec Unit := do
  change fun p => p.writeMemory p.sp w
  change fun p => { p with sp := p.sp.pred }

def pop : Exec Word := do
  change fun p => { p with sp := p.sp.offset 1 }
  look fun p => .ok (p.memory.get p.sp)

end Exec

def Fault.unhandled (op : Opcode) : Fault :=
  .noValue (.label op.mnemonic)

namespace Instruction

open Exec

def executeAlu (i : Instruction) : Exec Flow := do
  match i.opcode.aluOp? with
  | none => throw (.unhandled i.opcode)
  | some op =>
      let r ← look fun _ => i.registerAt 0
      let b ← if op.unary then pure 0 else look fun p => i.valueAt p 1
      let out ← look fun p => Processor.compute op (p.registers.read r) b
      if i.opcode ≠ .cmp then
        change fun p => p.setRegister r out.value
      change fun p => { p with flags := out.flags }
      return .next

def executeData (i : Instruction) (pc : Nat) : Exec Flow := do
  match i.opcode with
  | .mov =>
      let r ← look fun _ => i.registerAt 0
      let w ← look fun p => i.valueAt p 1
      change fun p => p.setRegister r w
      return .next
  | .load =>
      let r ← look fun _ => i.registerAt 0
      let w ← look fun p => i.valueAt p 1
      change fun p => p.setRegister r (p.read w)
      return .next
  | .store =>
      let r ← look fun _ => i.registerAt 0
      let a ← look fun p => i.primaryAt p 1
      change fun p => p.writeMemory a (p.registers.read r)
      return .next
  | .jmp => return .jump (← look fun p => i.targetAt p 0)
  | .call =>
      let target ← look fun p => i.targetAt p 0
      push (UInt16.ofNat (pc + 1))
      return .jump target
  | .ret => return .jump (← pop).toNat
  | .push =>
      push (← look fun p => i.valueAt p 0)
      return .next
  | .pop =>
      let r ← look fun _ => i.registerAt 0
      let w ← pop
      change fun p => p.setRegister r w
      return .next
  | op =>
      match op.condition? with
      | none => throw (.unhandled op)
      | some c =>
          let target ← look fun p => i.targetAt p 0
          return if (← get).processor.flags.satisfies c then .jump target else .next

def executeBridge (i : Instruction) : Exec Unit := do
  let _ ← look fun p => p.attached i.opcode
  match i.opcode with
  | .gload =>
      let src ← look fun p => i.primaryAt p 0
      let dst ← look fun p => i.unitCellAt p 1
      let len ← look fun p => i.valueAt p 2
      onUnit fun p u => (p, u.loadBlock p.memory src dst len.toNat)
  | .gstore =>
      let src ← look fun p => i.unitCellAt p 0
      let dst ← look fun p => i.primaryAt p 1
      let len ← look fun p => i.valueAt p 2
      onUnit fun p u =>
        let (memory, stored) := u.storeBlock p.memory src dst len.toNat
        ({ p with memory := memory }, stored)
  | .gexec =>
      let op ← look fun _ => i.vectorOpAt 0
      let src ← look fun p => i.unitCellAt p 1
      let dst ← look fun p => i.unitCellAt p 2
      let len ← look fun p => i.valueAt p 3
      let scalar ← look fun p => i.valueAt? p 4
      queue ⟨op, src, dst, len.toNat, scalar⟩
  | .gwait => onUnit fun p u => (p, u.drain.unit, u.drain.events.toList)
  | .gres =>
      let r ← look fun _ => i.registerAt 0
      change fun p => p.unit.elim p fun u => p.setRegister r u.result
  | .gread =>
      let r ← look fun _ => i.registerAt 0
      let a ← look fun p => i.unitCellAt p 1
      change fun p => p.unit.elim p fun u => p.setRegister r (u.read a)
  | .gwrite =>
      let a ← look fun p => i.unitCellAt p 0
      let w ← look fun p => i.valueAt p 1
      onUnit fun p u => (p, u.write a w, [])
  | op => throw (.unhandled op)

def execute (i : Instruction) (pc : Nat) : Exec Flow :=
  match i.opcode.opClass with
  | .alu => i.executeAlu
  | .bridge => do
      i.executeBridge
      return .next
  | .system => return if i.opcode = .hlt then .halt else .next
  | .memory | .control | .stack => i.executeData pc

end Instruction

namespace Processor

def flow (p : Processor) : Action → Flow
  | .stop => .halt
  | .jump target | .call target => .jump target
  | .ret => .jump p.top.toNat
  | _ => .next

def executed (p : Processor) (pc : Nat) (events : List VectorMachine.Event) :
    Except Fault Action → EStateM.Result Fault Execution Flow
  | .ok a => .ok (p.flow a) ⟨(p.effect pc a).1, events ++ (p.effect pc a).2⟩
  | .error f => .error f ⟨p, events⟩

end Processor

namespace Exec

/-- `m` faults where `x` does, in the state it began in, and else comes to what the action of `x`
does. -/
def Carries (p : Processor) (pc : Nat) (m : Exec Flow) (x : Except Fault Action) : Prop :=
  ∀ events, m ⟨p, events⟩ = p.executed pc events x

variable {α : Type} {p : Processor} {pc : Nat} {a : Action} {m : Exec Flow}

theorem Carries.look {f : Processor → Except Fault α} {m : α → Exec Flow}
    {x : α → Except Fault Action} (h : ∀ b, f p = .ok b → Carries p pc (m b) (x b)) :
    Carries p pc (Exec.look f >>= m) (f p >>= x) := by
  intro events
  cases hf : f p with
  | error e =>
      simp only [bind, EStateM.bind, Exec.look, hf]
      rfl
  | ok b =>
      simp only [bind, EStateM.bind, Exec.look, hf]
      exact h b hf events

theorem Carries.quiet
    (h : ∀ events, m ⟨p, events⟩ = .ok (p.flow a) ⟨(p.effect pc a).1, events⟩)
    (he : (p.effect pc a).2 = []) : Carries p pc m (pure a) := by
  intro events
  rw [h]
  simp only [Processor.executed, pure, Except.pure, he, List.append_nil]

theorem Carries.onUnit {f : Processor → VectorUnit → Processor × VectorUnit × List VectorUnit.Event}
    {u : VectorUnit} (hu : p.unit = some u) (hf : p.flow a = .next)
    (he : p.effect pc a =
      ({ (f p u).1 with unit := some (f p u).2.1 }, (f p u).2.2.map .unit)) :
    Carries p pc (Exec.onUnit f >>= fun _ => pure .next) (pure a) := by
  intro events
  simp only [bind, EStateM.bind, Exec.onUnit, hu, pure, Except.pure, Processor.executed, hf, he]
  rfl

theorem Carries.queue {u : VectorUnit} {job : Job} (hu : p.unit = some u) :
    Carries p pc (Exec.queue job >>= fun _ => pure .next) (Processor.launch u job) := by
  intro events
  simp only [bind, EStateM.bind, Exec.queue, hu, VectorUnit.queue_eq, Processor.launch,
    VectorUnit.start_eq]
  cases hw : u.work.job? with
  | none =>
      simp only [Option.elim, Processor.executed, Processor.effect, Processor.onUnit,
        Processor.launched, VectorUnit.start_eq, hu, hw, pure, List.map_nil, List.append_nil]
      rfl
  | some current =>
      simp only [Option.elim]
      rw [← hu]
      rfl

end Exec

namespace Instruction

open Exec

variable {i : Instruction} {p : Processor} {pc : Nat}

theorem carries_executeAlu (hc : i.opcode.opClass = .alu) :
    Carries p pc i.executeAlu (p.resolve i) := by
  cases ho : i.opcode with
  | alu op =>
      simp only [executeAlu, Processor.resolve, ho, Opcode.aluOp?, Processor.resolveAlu, bind_assoc]
      refine .look fun r _ => ?_
      cases op.unary with
      | true =>
          simp only [pure_bind, if_true, bind_assoc]
          exact .look fun out _ => .quiet (fun _ => rfl) rfl
      | false =>
          simp only [Bool.false_eq_true, if_false, pure_bind, bind_assoc]
          exact .look fun b _ => .look fun out _ => .quiet (fun _ => rfl) rfl
  | cmp =>
      simp only [executeAlu, Processor.resolve, ho, Opcode.aluOp?, Processor.resolveAlu,
        AluOp.unary, Bool.false_eq_true, if_false, bind_assoc, pure_bind]
      exact .look fun r _ => .look fun b _ => .look fun out _ => .quiet (fun _ => rfl) rfl
  | _ => simp [ho, Opcode.opClass] at hc

theorem carries_executeData (hc : i.opcode.opClass = .memory ∨ i.opcode.opClass = .control ∨
    i.opcode.opClass = .stack) : Carries p pc (i.executeData pc) (p.resolve i) := by
  cases ho : i.opcode with
  | mov | load =>
      simp only [executeData, Processor.resolve, ho]
      exact .look fun r _ => .look fun w _ => .quiet (fun _ => rfl) rfl
  | store =>
      simp only [executeData, Processor.resolve, ho]
      exact .look fun r _ => .look fun cell _ => .quiet (fun _ => rfl) rfl
  | jmp | call =>
      simp only [executeData, Processor.resolve, ho]
      exact .look fun target _ => .quiet (fun _ => rfl) rfl
  | jumpIf c =>
      simp only [executeData, Processor.resolve, ho, Opcode.condition?]
      refine .look fun target _ => .quiet (fun events => ?_) ?_
      · change EStateM.Result.ok (if p.flags.satisfies c then Flow.jump target else .next) _ = _
        cases p.flags.satisfies c <;> rfl
      · cases p.flags.satisfies c <;> rfl
  | ret =>
      simp only [executeData, Processor.resolve, ho]
      exact .quiet (fun _ => rfl) rfl
  | push =>
      simp only [executeData, Processor.resolve, ho]
      exact .look fun w _ => .quiet (fun _ => rfl) rfl
  | pop =>
      simp only [executeData, Processor.resolve, ho]
      exact .look fun r _ => .quiet (fun _ => rfl) rfl
  | _ => simp [ho, Opcode.opClass] at hc

theorem carries_executeBridge (hc : i.opcode.opClass = .bridge) :
    Carries p pc (i.executeBridge >>= fun _ => pure .next) (p.resolve i) := by
  cases ho : i.opcode with
  | gload =>
      simp only [executeBridge, Processor.resolve, ho, bind_assoc]
      refine .look fun u hu => .look fun src _ => .look fun dst _ => .look fun len _ => ?_
      refine .onUnit (Processor.unit_of_attached hu) rfl ?_
      simp only [Processor.effect, Processor.onUnit, Processor.unit_of_attached hu]
  | gstore =>
      simp only [executeBridge, Processor.resolve, ho, bind_assoc]
      refine .look fun u hu => .look fun src _ => .look fun dst _ => .look fun len _ => ?_
      refine .onUnit (Processor.unit_of_attached hu) rfl ?_
      simp only [Processor.effect, Processor.unit_of_attached hu]
  | gexec =>
      simp only [executeBridge, Processor.resolve, ho, bind_assoc]
      exact .look fun u hu => .look fun op _ => .look fun src _ => .look fun dst _ =>
        .look fun len _ => .look fun scalar _ => .queue (Processor.unit_of_attached hu)
  | gwait =>
      simp only [executeBridge, Processor.resolve, ho, bind_assoc]
      refine .look fun u hu => .onUnit (Processor.unit_of_attached hu) rfl ?_
      simp only [Processor.effect, Processor.onUnit, Processor.unit_of_attached hu]
  | gres =>
      simp only [executeBridge, Processor.resolve, ho, bind_assoc]
      refine .look fun u hu => .look fun r _ => .quiet (fun events => ?_) rfl
      simp only [bind, EStateM.bind, change, Processor.unit_of_attached hu]
      rfl
  | gread =>
      simp only [executeBridge, Processor.resolve, ho, bind_assoc]
      refine .look fun u hu => .look fun r _ => .look fun a _ => .quiet (fun events => ?_) rfl
      simp only [bind, EStateM.bind, change, Processor.unit_of_attached hu]
      rfl
  | gwrite =>
      simp only [executeBridge, Processor.resolve, ho, bind_assoc]
      refine .look fun u hu => .look fun a _ => .look fun w _ => ?_
      refine .onUnit (Processor.unit_of_attached hu) rfl ?_
      simp only [Processor.effect, Processor.onUnit, Processor.unit_of_attached hu, List.map_nil]
  | _ => simp [ho, Opcode.opClass] at hc

theorem carries_system (hc : i.opcode.opClass = .system) :
    Carries p pc (pure (if i.opcode = .hlt then .halt else .next)) (p.resolve i) := by
  cases ho : i.opcode with
  | nop | hlt =>
      simp only [Processor.resolve, ho]
      exact .quiet (fun _ => rfl) rfl
  | _ => simp [ho, Opcode.opClass] at hc

theorem execute_eq (i : Instruction) (pc : Nat) (p : Processor)
    (events : List VectorMachine.Event) :
    i.execute pc ⟨p, events⟩ = p.executed pc events (p.resolve i) := by
  unfold execute
  cases hc : i.opcode.opClass with
  | alu => exact carries_executeAlu hc events
  | bridge => exact carries_executeBridge hc events
  | system => exact carries_system hc events
  | memory => exact carries_executeData (.inl hc) events
  | control => exact carries_executeData (.inr (.inl hc)) events
  | stack => exact carries_executeData (.inr (.inr hc)) events

theorem eq_of_execute_eq_error {i : Instruction} {pc : Nat} {s t : Execution} {f : Fault}
    (h : i.execute pc s = .error f t) : t = s := by
  rw [execute_eq i pc s.processor s.events] at h
  cases hr : s.processor.resolve i with
  | error g =>
      rw [hr] at h
      cases h
      rfl
  | ok a =>
      rw [hr] at h
      cases h

end Instruction

end VectorMachine
