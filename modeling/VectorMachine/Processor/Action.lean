import VectorMachine.Alu
import VectorMachine.Processor.Operand
import VectorMachine.VectorUnit.Step
import VectorMachine.VectorUnit.Transfer

namespace VectorMachine

inductive Action where
  | proceed
  | stop
  | assign (r : Register) (w : Word)
  | latch (r : Option Register) (out : Alu.Output)
  | store (a : PrimaryCell) (w : Word)
  | jump (target : Nat)
  | call (target : Nat)
  | ret
  | push (w : Word)
  | pop (r : Register)
  | transferIn (src : PrimaryCell) (dst : UnitCell) (len : Nat)
  | transferOut (src : UnitCell) (dst : PrimaryCell) (len : Nat)
  | launch (job : Job)
  | drain
  | poke (a : UnitCell) (w : Word)
  deriving DecidableEq, Repr

namespace Action

def branches : Action → Bool
  | .jump _ | .call _ | .ret => true
  | _ => false

def halts : Action → Bool
  | .stop => true
  | _ => false

end Action

namespace Processor

def attached (p : Processor) (op : Opcode) : Except Fault VectorUnit :=
  match p.unit with
  | some u => .ok u
  | none => .error (.noUnit op)

theorem unit_of_attached {p : Processor} {op : Opcode} {u : VectorUnit}
    (h : p.attached op = .ok u) : p.unit = some u := by
  simp only [attached] at h
  split at h
  · rename_i hu
    cases h
    exact hu
  · cases h

def compute (op : AluOp) (a b : Word) : Except Fault Alu.Output :=
  match Alu.eval? op a b with
  | some out => .ok out
  | none => .error .divisionByZero

theorem eval?_of_compute {op : AluOp} {x y : Word} {out : Alu.Output}
    (h : compute op x y = .ok out) : Alu.eval? op x y = some out := by
  simp only [compute] at h
  split at h
  · rename_i he
    cases h
    exact he
  · cases h

def resolveAlu (p : Processor) (i : Instruction) (op : AluOp) :
    Except Fault (Register × Alu.Output) :=
  do
    let r ← i.registerAt 0
    let b ← if op.unary then pure 0 else i.valueAt p 1
    return (r, ← compute op (p.registers.read r) b)

def launch (u : VectorUnit) (job : Job) : Except Fault Action :=
  match u.start job with
  | .ok _ => .ok (.launch job)
  | .error r => .error (.refused r)

def resolveLaunch (p : Processor) (u : VectorUnit) (i : Instruction) : Except Fault Action := do
  let op ← i.vectorOpAt 0
  let src ← i.unitCellAt p 1
  let dst ← i.unitCellAt p 2
  let len ← i.valueAt p 3
  let scalar ← i.valueAt? p 4
  launch u ⟨op, src, dst, len.toNat, scalar⟩

def resolve (p : Processor) (i : Instruction) : Except Fault Action :=
  match i.opcode with
  | .nop => .ok .proceed
  | .hlt => .ok .stop
  | .mov => return .assign (← i.registerAt 0) (← i.valueAt p 1)
  | .load => return .assign (← i.registerAt 0) (p.read (← i.valueAt p 1))
  | .store => do
      let r ← i.registerAt 0
      return .store (← i.primaryAt p 1) (p.registers.read r)
  | .alu op => do
      let (r, out) ← p.resolveAlu i op
      return .latch (some r) out
  | .cmp => do
      let (_, out) ← p.resolveAlu i .sub
      return .latch none out
  | .jmp => return .jump (← i.targetAt p 0)
  | .jumpIf c => do
      let target ← i.targetAt p 0
      return if p.flags.satisfies c then .jump target else .proceed
  | .call => return .call (← i.targetAt p 0)
  | .ret => .ok .ret
  | .push => return .push (← i.valueAt p 0)
  | .pop => return .pop (← i.registerAt 0)
  | .gload => do
      let _ ← p.attached .gload
      let src ← i.primaryAt p 0
      let dst ← i.unitCellAt p 1
      return .transferIn src dst (← i.valueAt p 2).toNat
  | .gstore => do
      let _ ← p.attached .gstore
      let src ← i.unitCellAt p 0
      let dst ← i.primaryAt p 1
      return .transferOut src dst (← i.valueAt p 2).toNat
  | .gexec => do p.resolveLaunch (← p.attached .gexec) i
  | .gwait => do
      let _ ← p.attached .gwait
      return .drain
  | .gres => do
      let u ← p.attached .gres
      return .assign (← i.registerAt 0) u.result
  | .gread => do
      let u ← p.attached .gread
      let r ← i.registerAt 0
      return .assign r (u.read (← i.unitCellAt p 1))
  | .gwrite => do
      let _ ← p.attached .gwrite
      let a ← i.unitCellAt p 0
      return .poke a (← i.valueAt p 1)

def onUnit (p : Processor) (f : VectorUnit → VectorUnit × List VectorUnit.Event) :
    Processor × List VectorMachine.Event :=
  match p.unit with
  | none => (p, [])
  | some u =>
      let (after, events) := f u
      ({ p with unit := some after }, events.map .unit)

theorem flight_onUnit (p : Processor)
    (f : VectorUnit → VectorUnit × List VectorUnit.Event) :
    (p.onUnit f).1.flight = p.flight := by
  unfold onUnit
  split <;> rfl

def launched (u : VectorUnit) (job : Job) : VectorUnit :=
  match u.start job with
  | .ok busy => busy
  | .error _ => u

def effect (p : Processor) (pc : Nat) : Action → Processor × List VectorMachine.Event
  | .proceed | .stop | .jump _ => (p, [])
  | .assign r w => (p.setRegister r w, [])
  | .latch r out =>
      let written := match r with
        | some r => p.setRegister r out.value
        | none => p
      ({ written with flags := out.flags }, [])
  | .store a w => (p.writeMemory a w, [])
  | .call _ => (p.push (UInt16.ofNat (pc + 1)), [])
  | .ret => (p.drop, [])
  | .push w => (p.push w, [])
  | .pop r => (p.drop.setRegister r p.top, [])
  | .transferIn src dst len => p.onUnit fun u => u.loadBlock p.memory src dst len
  | .transferOut src dst len =>
      match p.unit with
      | none => (p, [])
      | some u =>
          let (memory, after, events) := u.storeBlock p.memory src dst len
          ({ p with memory := memory, unit := some after }, events.map .unit)
  | .launch job => p.onUnit fun u => (launched u job, [])
  | .drain => p.onUnit fun u => (u.drain.unit, u.drain.events.toList)
  | .poke a w => p.onUnit fun u => (u.write a w, [])

theorem flight_effect (p : Processor) (pc : Nat) (a : Action) :
    (p.effect pc a).1.flight = p.flight := by
  cases a with
  | latch r out => cases r <;> rfl
  | transferIn src dst len => exact flight_onUnit _ _
  | transferOut src dst len =>
      simp only [effect]
      split <;> rfl
  | launch job => exact flight_onUnit _ _
  | drain => exact flight_onUnit _ _
  | poke a w => exact flight_onUnit _ _
  | _ => rfl

def nextPc (p : Processor) (pc : Nat) : Action → Nat
  | .stop => p.pc
  | .jump target | .call target => target
  | .ret => p.top.toNat
  | _ => pc + 1

def settle (p : Processor) (pc : Nat) (a : Action) : Processor × List VectorMachine.Event :=
  let (after, events) := p.effect pc a
  let branches := if a.branches then p.counters.branchesTaken + 1 else p.counters.branchesTaken
  ({ after with
      pc := p.nextPc pc a
      halted := p.halted || a.halts
      counters := { p.counters with branchesTaken := branches } }, events)

theorem flight_settle (p : Processor) (pc : Nat) (a : Action) :
    (p.settle pc a).1.flight = p.flight :=
  flight_effect p pc a

end Processor

end VectorMachine
