import VectorMachine.Processor.Basic

namespace VectorMachine

namespace Processor

def value (p : Processor) : Operand → Except Fault Word
  | .register r => .ok (p.registers.read r)
  | .immediate v => .ok (.ofRaw v)
  | .label name =>
      match p.program.label? name with
      | some index => .ok (UInt16.ofNat index)
      | none => .error (.unknownLabel name)
  | .vectorOp op => .error (.noValue (.vectorOp op))

def target (p : Processor) : Operand → Except Fault Nat
  | .label name =>
      match p.program.label? name with
      | some index => .ok index
      | none => .error (.unknownLabel name)
  | o => (p.value o).map UInt16.toNat

def read (p : Processor) (w : Word) : Word :=
  p.memory.get (Cell.ofNat w.toNat)

def topCell (p : Processor) : PrimaryCell := p.sp.offset 1

def top (p : Processor) : Word := p.memory.get p.topCell

def push (p : Processor) (w : Word) : Processor :=
  { p with memory := p.memory.set p.sp w, sp := p.sp.pred }

def drop (p : Processor) : Processor :=
  { p with sp := p.topCell }

end Processor

namespace Instruction

def argument (i : Instruction) (position : Nat) : Except Fault Operand :=
  match i.operand? position with
  | some o => .ok o
  | none => .error (.missingOperand i position)

def registerAt (i : Instruction) (position : Nat) : Except Fault Register := do
  match ← i.argument position with
  | .register r => return r
  | o => throw (.notARegister o)

def vectorOpAt (i : Instruction) (position : Nat) : Except Fault VectorOp := do
  match ← i.argument position with
  | .vectorOp op => return op
  | o => throw (.noValue o)

def valueAt (i : Instruction) (p : Processor) (position : Nat) : Except Fault Word := do
  p.value (← i.argument position)

def targetAt (i : Instruction) (p : Processor) (position : Nat) : Except Fault Nat := do
  p.target (← i.argument position)

def primaryAt (i : Instruction) (p : Processor) (position : Nat) : Except Fault PrimaryCell := do
  return Cell.ofNat (← i.valueAt p position).toNat

def unitCellAt (i : Instruction) (p : Processor) (position : Nat) : Except Fault UnitCell := do
  return Cell.ofNat (← i.valueAt p position).toNat

def valueAt? (i : Instruction) (p : Processor) (position : Nat) : Except Fault (Option Word) :=
  match i.operand? position with
  | some o => (p.value o).map some
  | none => .ok none

end Instruction

end VectorMachine
