import VectorMachine.Counters
import VectorMachine.Listeners
import VectorMachine.VectorUnit.Job
import VectorMachine.VectorUnit.Lane

namespace VectorMachine

@[ext]
structure VectorUnit where
  memory : Vector Word 128
  lanes : List Lane
  work : Work
  result : Word
  listeners : Listeners
  counters : UnitCounters
  hasLane : 0 < lanes.length
  deriving DecidableEq, Repr

inductive Direction where
  | toUnit
  | toPrimary
  deriving DecidableEq, Repr

namespace Direction

def name : Direction → String
  | .toUnit => "to_compute"
  | .toPrimary => "to_primary"

def label : Direction → String
  | .toUnit => "CPU -> GPU"
  | .toPrimary => "GPU -> CPU"

end Direction

inductive Refusal where
  | busy (op : VectorOp)
  deriving DecidableEq, Repr

def Refusal.message : Refusal → String
  | .busy op => "compute unit is busy with " ++ op.name

namespace VectorUnit

structure Snapshot where
  memory : Vector Word 128
  lanes : List Lane
  busy : Bool
  result : Word
  pending : Option Job
  active : Option Job
  phase : Option Stage
  batch : Option (Nat × Nat)
  deriving DecidableEq, Repr

inductive Event where
  | reset (state : Snapshot)
  | phase (stage : Stage) (state : Snapshot) (lanes : List Nat) (micro : MicroOp)
  | transfer (state : Snapshot) (direction : Direction) (words : Nat)
  | complete (state : Snapshot) (op : VectorOp)
  deriving DecidableEq, Repr

namespace Event

def state : Event → Snapshot
  | .reset s => s
  | .phase _ s _ _ => s
  | .transfer s _ _ => s
  | .complete s _ => s

def lanes? : Event → Option (List Nat)
  | .phase _ _ lanes _ => some lanes
  | _ => none

def micro? : Event → Option MicroOp
  | .phase _ _ _ micro => some micro
  | _ => none

def kind : Event → String
  | .reset _ => "reset"
  | .phase stage _ _ _ => stage.name
  | .transfer _ _ _ => "transfer"
  | .complete _ _ => "complete"

end Event

def new (lanes : Nat) : VectorUnit where
  memory := Vector.replicate 128 0
  lanes := List.replicate (max lanes 1) .idle
  work := .idle
  result := 0
  listeners := {}
  counters := {}
  hasLane := by
    rw [List.length_replicate]
    exact Nat.le_max_right lanes 1

def width (u : VectorUnit) : Nat := u.lanes.length

theorem width_pos (u : VectorUnit) : 0 < u.width := u.hasLane

theorem width_new (lanes : Nat) : (new lanes).width = max lanes 1 := by
  simp [new, width]

def read (u : VectorUnit) (a : UnitCell) : Word := u.memory.get a

def write (u : VectorUnit) (a : UnitCell) (w : Word) : VectorUnit :=
  { u with memory := u.memory.set a w }

def snapshot (u : VectorUnit) : Snapshot where
  memory := u.memory
  lanes := u.lanes
  busy := u.work.busy
  result := u.result
  pending := u.work.pending?
  active := u.work.active?
  phase := u.work.phase?
  batch := u.work.progress?

def announce (u : VectorUnit) (event : Snapshot → Event) : List Event :=
  if u.listeners.heard then [event u.snapshot] else []

def deliver (u : VectorUnit) (events : List Event) : List (Nat × Event) :=
  events.flatMap u.listeners.deliver

def subscribe (u : VectorUnit) (recipient : Nat) : ListenerId × VectorUnit :=
  let (id, ls) := u.listeners.subscribe recipient
  (id, { u with listeners := ls })

def unsubscribe (u : VectorUnit) (id : ListenerId) : Bool × VectorUnit :=
  let (found, ls) := u.listeners.unsubscribe id
  (found, { u with listeners := ls })

def queue (job : Job) : EStateM Refusal VectorUnit Unit := do
  let u ← get
  if u.work.busy then
    let current := u.work.active?.map Job.op <|> u.work.pending?.map Job.op
    throw (.busy (current.getD job.op))
  set { u with work := .queued job }

theorem queue_eq (job : Job) (u : VectorUnit) : queue job u =
    u.work.job?.elim (.ok () { u with work := .queued job }) fun j => .error (.busy j.op) u := by
  obtain ⟨memory, lanes, work, result, listeners, counters, hasLane⟩ := u
  cases work <;> rfl

def start (u : VectorUnit) (job : Job) : Except Refusal VectorUnit :=
  match queue job u with
  | .ok _ busy => .ok busy
  | .error r _ => .error r

theorem start_eq (u : VectorUnit) (job : Job) : u.start job =
    u.work.job?.elim (.ok { u with work := .queued job }) fun j => .error (.busy j.op) := by
  rw [start, queue_eq]
  cases u.work.job? <;> rfl

def onLanes (u : VectorUnit) (count : Nat) (f : Nat → Lane → Lane) : VectorUnit :=
  { u with
    lanes := Lane.onFirst count f u.lanes
    hasLane := Nat.lt_of_lt_of_eq u.hasLane (Lane.length_onFirst count f u.lanes).symm }

@[simp]
theorem width_onLanes (u : VectorUnit) (count : Nat) (f : Nat → Lane → Lane) :
    (u.onLanes count f).width = u.width :=
  Lane.length_onFirst count f u.lanes

@[simp]
theorem memory_onLanes (u : VectorUnit) (count : Nat) (f : Nat → Lane → Lane) :
    (u.onLanes count f).memory = u.memory := rfl

@[simp]
theorem result_onLanes (u : VectorUnit) (count : Nat) (f : Nat → Lane → Lane) :
    (u.onLanes count f).result = u.result := rfl

def clearLanes (u : VectorUnit) : VectorUnit :=
  { u with
    lanes := u.lanes.map Lane.clear
    hasLane := Nat.lt_of_lt_of_eq u.hasLane (List.length_map Lane.clear).symm }

theorem lanes_clearLanes (u : VectorUnit) : u.clearLanes.lanes = List.replicate u.width .idle :=
  List.map_const'

@[simp]
theorem memory_clearLanes (u : VectorUnit) : u.clearLanes.memory = u.memory := rfl

@[simp]
theorem counters_clearLanes (u : VectorUnit) : u.clearLanes.counters = u.counters := rfl

@[simp]
theorem width_clearLanes (u : VectorUnit) : u.clearLanes.width = u.width :=
  List.length_map Lane.clear

def reset (u : VectorUnit) : VectorUnit × List Event :=
  let cleared :=
    { u.clearLanes with
      memory := u.memory.map fun _ => 0
      work := .idle
      result := 0
      counters := {} }
  (cleared, cleared.announce .reset)

theorem reset_eq (u : VectorUnit) : u.reset.1 = { new u.width with listeners := u.listeners } := by
  have hw : max u.width 1 = u.width := Nat.max_eq_left u.hasLane
  simp only [reset, new, hw, lanes_clearLanes, Vector.map_const']
  rfl

end VectorUnit

end VectorMachine
