import VectorMachine.Cell
import VectorMachine.Counters
import VectorMachine.Fault
import VectorMachine.Flags
import VectorMachine.Program
import VectorMachine.Settings

namespace VectorMachine

structure Flight where
  pc : Nat
  text : String
  decoded : Option Instruction
  plan : List MicroOp
  stage : Stage
  deriving DecidableEq, Repr

@[elab_as_elim, cases_eliminator]
theorem Flight.byDecoded {motive : Flight → Prop} (f : Flight)
    (undecoded : ∀ pc text plan stage, motive ⟨pc, text, none, plan, stage⟩)
    (decoded : ∀ pc text i plan stage, motive ⟨pc, text, some i, plan, stage⟩) : motive f :=
  match f with
  | ⟨pc, text, none, plan, stage⟩ => undecoded pc text plan stage
  | ⟨pc, text, some i, plan, stage⟩ => decoded pc text i plan stage

structure Processor where
  registers : Registers
  memory : Vector Word 256
  flags : Flags
  pc : Nat
  sp : PrimaryCell
  halted : Bool
  flight : Option Flight
  program : Program
  unit : Option VectorUnit
  listeners : Listeners
  lastFault : Option Fault
  tracing : Bool
  counters : Counters
  deriving DecidableEq, Repr

namespace Processor

structure Snapshot where
  registers : Registers
  memory : Vector Word 256
  flags : Flags
  pc : Nat
  sp : PrimaryCell
  halted : Bool
  stage : Option Stage
  deriving DecidableEq, Repr

inductive Event where
  | reset (state : Snapshot)
  | micro (state : Snapshot) (m : MicroOp)
  | step (state : Snapshot) (changed : List Register)
  | halt (state : Snapshot)
  | error (state : Snapshot) (message : String)
  deriving DecidableEq, Repr

namespace Event

def state : Event → Snapshot
  | .reset s => s
  | .micro s _ => s
  | .step s _ => s
  | .halt s => s
  | .error s _ => s

def kind : Event → String
  | .reset _ => "reset"
  | .micro _ _ => "micro"
  | .step _ _ => "step"
  | .halt _ => "halt"
  | .error _ _ => "error"

end Event

end Processor

inductive Event where
  | processor (e : Processor.Event)
  | unit (e : VectorUnit.Event)
  deriving DecidableEq, Repr

namespace Processor

def new (s : Settings) : Processor where
  registers := .zero
  memory := Vector.replicate 256 0
  flags := {}
  pc := 0
  sp := stackTop
  halted := false
  flight := none
  program := .empty
  unit := if s.unit.enabled then some (.new s.unit.lanes) else none
  listeners := {}
  lastFault := none
  tracing := s.general.traceInstructions
  counters := {}

def stage? (p : Processor) : Option Stage :=
  p.flight.map Flight.stage

def snapshot (p : Processor) : Snapshot where
  registers := p.registers
  memory := p.memory
  flags := p.flags
  pc := p.pc
  sp := p.sp
  halted := p.halted
  stage := p.stage?

def announce (p : Processor) (event : Snapshot → Event) : List VectorMachine.Event :=
  if p.listeners.heard then [.processor (event p.snapshot)] else []

def audience (p : Processor) : VectorMachine.Event → Listeners
  | .processor _ => p.listeners
  | .unit _ => (p.unit.map VectorUnit.listeners).getD {}

def deliver (p : Processor) (events : List VectorMachine.Event) :
    List (Nat × VectorMachine.Event) :=
  events.flatMap fun e => (p.audience e).deliver e

def subscribe (p : Processor) (recipient : Nat) : ListenerId × Processor :=
  let (id, ls) := p.listeners.subscribe recipient
  (id, { p with listeners := ls })

def unsubscribe (p : Processor) (id : ListenerId) : Bool × Processor :=
  let (found, ls) := p.listeners.unsubscribe id
  (found, { p with listeners := ls })

def setRegister (p : Processor) (r : Register) (w : Word) : Processor :=
  { p with registers := p.registers.write r w }

def writeMemory (p : Processor) (a : PrimaryCell) (w : Word) : Processor :=
  { p with memory := p.memory.set a w }

def attach (p : Processor) (u : VectorUnit) : Option VectorUnit × Processor :=
  (p.unit, { p with unit := some u })

def detach (p : Processor) : Option VectorUnit × Processor :=
  (p.unit, { p with unit := none })

def reset (p : Processor) : Processor × List VectorMachine.Event :=
  let unit := p.unit.map VectorUnit.reset
  let fresh :=
    { p with
      registers := .zero
      memory := Vector.replicate 256 0
      flags := {}
      pc := 0
      sp := stackTop
      halted := false
      flight := none
      unit := unit.map Prod.fst
      lastFault := none
      counters := {} }
  let unitEvents := unit.toList.flatMap fun u => u.2.map .unit
  (fresh, unitEvents ++ fresh.announce .reset)

def load (p : Processor) (program : Program) : Processor × List VectorMachine.Event :=
  { p with program := program }.reset

def dump (p : Processor) : String :=
  "PC=" ++ toString p.pc ++ " SP=" ++ toString p.sp.val ++ " " ++ p.flags.text ++
    " halted=" ++ toString p.halted ++ "\n" ++ p.registers.dump

end Processor

end VectorMachine
