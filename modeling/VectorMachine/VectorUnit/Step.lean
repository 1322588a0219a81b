import VectorMachine.VectorUnit.Basic

namespace VectorMachine.VectorUnit

def storeFrom (memory : Vector Word 128) (dst : UnitCell) : Nat → List Word → Vector Word 128
  | _, [] => memory
  | i, w :: ws => storeFrom (memory.set (dst.offset i) w) dst (i + 1) ws

def foldFrom (op : VectorOp) (acc : Word) : Nat → List Word → Word
  | _, [] => acc
  | i, w :: ws => foldFrom op (op.fold acc w (i == 0)) (i + 1) ws

def outputs (u : VectorUnit) (count : Nat) : List Word :=
  (u.lanes.take count).map Lane.output

def decodeBatch (u : VectorUnit) (job : Job) (batch : Nat) : VectorUnit :=
  u.onLanes (job.count u.width batch) fun _ => Lane.decode job.op

def fetchBatch (u : VectorUnit) (job : Job) (batch : Nat) : VectorUnit :=
  let base := batch * u.width
  let b (i : Nat) := if job.op.readsDestination then u.read (job.dst.offset (base + i)) else 0
  let fetch (i : Nat) := Lane.fetch (u.read (job.src.offset (base + i))) (b i)
  u.onLanes (job.count u.width batch) fetch

def executeBatch (u : VectorUnit) (job : Job) (batch : Nat) : VectorUnit :=
  let execute (_ : Nat) := Lane.execute job.op job.scalar
  u.onLanes (job.count u.width batch) execute

def writeBatch (u : VectorUnit) (job : Job) (batch : Nat) : VectorUnit :=
  let base := batch * u.width
  let count := job.count u.width batch
  let words := u.outputs count
  let cleared := u.onLanes count fun _ => Lane.clear
  if job.op.reduction then
    { cleared with result := foldFrom job.op u.result base words }
  else
    { cleared with memory := storeFrom u.memory job.dst base words }

def runPhase (u : VectorUnit) (job : Job) (batch : Nat) : Stage → VectorUnit
  | .decode => u.decodeBatch job batch
  | .fetch => u.fetchBatch job batch
  | .execute => u.executeBatch job batch
  | .writeback => u.writeBatch job batch

theorem width_runPhase (u : VectorUnit) (job : Job) (batch : Nat) (stage : Stage) :
    (u.runPhase job batch stage).width = u.width := by
  cases stage with
  | decode => exact Lane.length_onFirst _ _ _
  | fetch => exact Lane.length_onFirst _ _ _
  | execute => exact Lane.length_onFirst _ _ _
  | writeback =>
      simp only [runPhase, writeBatch]
      split <;> exact Lane.length_onFirst _ _ _

def describe (u : VectorUnit) (job : Job) (batch : Batch) (stage : Stage) : MicroOp :=
  let base := batch.number * u.width
  let count := toString (job.count u.width batch.number)
  match stage with
  | .decode =>
      { stage := .decode
        description := "Decode " ++ job.op.name ++ " for batch " ++
          toString (batch.number + 1) ++ "/" ++ toString batch.total ++
          " (" ++ count ++ " lane(s))" }
  | .fetch =>
      { stage := .fetch
        description := "Fetch " ++ count ++ " element(s)"
        source := some (.unitCell (some (job.src.offset base))) }
  | .execute =>
      { stage := .execute
        description := "Execute " ++ job.op.name ++ " on " ++ count ++ " lane(s)" }
  | .writeback =>
      { stage := .writeback
        description := "Write back " ++ count ++ " element(s)"
        destination :=
          some (if job.op.reduction then .result else .unitCell (some (job.dst.offset base)))
        value := if job.op.reduction then some u.result.toRaw else none }

inductive Outcome where
  | idle
  | advanced (stage : Stage)
  | completed
  deriving DecidableEq, Repr

structure Turn where
  outcome : Outcome
  unit : VectorUnit
  events : List Event
  deriving DecidableEq, Repr

def pickUp (u : VectorUnit) (job : Job) : VectorUnit :=
  { u.clearLanes with
    result := if job.op.reduction then 0 else u.result
    work := .idle }

def begin (u : VectorUnit) (job : Job) (batch : Batch) : VectorUnit :=
  { u.pickUp job with work := .running job batch none }

def complete (u : VectorUnit) (op : VectorOp) : Turn :=
  let counters := { u.counters with operations := u.counters.operations + 1 }
  let done := { u with work := .idle, counters := counters }
  ⟨.completed, done, done.announce fun state => .complete state op⟩

def afterPhase (u : VectorUnit) (job : Job) (batch : Batch) (stage : Stage) : VectorUnit :=
  { u.runPhase job batch.number stage with
    work := .running job batch (some stage)
    counters := { u.counters with phases := u.counters.phases + 1 } }

def countBatch (u : VectorUnit) : VectorUnit :=
  { u with counters := { u.counters with batches := u.counters.batches + 1 } }

def advance (u : VectorUnit) (job : Job) (batch : Batch) (phase : Option Stage) : Turn :=
  let stage := nextPhase phase
  let after := u.afterPhase job batch stage
  let lanes := job.count u.width batch.number
  let events := after.announce fun state =>
    .phase stage state (List.range lanes) (after.describe job batch stage)
  if stage = .writeback then
    let written := after.countBatch
    match batch.next? with
    | none =>
        let done := written.complete job.op
        { done with events := events ++ done.events }
    | some next => ⟨.advanced stage, { written with work := .running job next none }, events⟩
  else
    ⟨.advanced stage, after, events⟩

def step (u : VectorUnit) : Turn :=
  match u.work with
  | .idle => ⟨.idle, u, []⟩
  | .queued job =>
      match Batch.first? (job.batches u.width) with
      | none => (u.pickUp job).complete job.op
      | some batch => (u.begin job batch).advance job batch none
  | .running job batch phase => u.advance job batch phase

def remaining (u : VectorUnit) : Nat := u.work.remaining u.width

theorem width_afterPhase (u : VectorUnit) (job : Job) (batch : Batch) (stage : Stage) :
    (u.afterPhase job batch stage).width = u.width :=
  u.width_runPhase job batch.number stage

theorem width_pickUp (u : VectorUnit) (job : Job) : (u.pickUp job).width = u.width :=
  u.width_clearLanes

theorem width_begin (u : VectorUnit) (job : Job) (batch : Batch) :
    (u.begin job batch).width = u.width :=
  u.width_clearLanes

theorem remaining_advance_lt (u : VectorUnit) (job : Job) (batch : Batch) (phase : Option Stage) :
    (u.advance job batch phase).unit.remaining <
      4 * (batch.total - batch.number) - phasesRun phase := by
  have hlt := batch.inRange
  unfold remaining advance
  dsimp only
  split
  · rename_i hs
    obtain rfl := nextPhase_eq_writeback_iff.1 hs
    split
    · simp only [complete, Work.remaining, phasesRun]
      omega
    · rename_i next hn
      obtain ⟨hnumber, htotal⟩ := Batch.next?_eq_some_iff.1 hn
      simp only [Work.remaining, phasesRun, hnumber, htotal]
      omega
  · rename_i hs
    simp only [afterPhase, Work.remaining]
    cases phase with
    | none => simp only [nextPhase, phasesRun]; omega
    | some last =>
        cases last with
        | execute => exact absurd rfl hs
        | _ => simp only [nextPhase, phasesRun]; omega

theorem remaining_step_lt {u : VectorUnit} (h : u.work ≠ .idle) :
    u.step.unit.remaining < u.remaining := by
  unfold step
  match hw : u.work with
  | .idle => exact absurd hw h
  | .queued job =>
      have hu : u.remaining = max 1 (4 * job.batches u.width) := by
        simp only [remaining, hw, Work.remaining]
      rw [hu]
      dsimp only
      split
      · simp only [remaining, complete, Work.remaining]
        omega
      · rename_i batch hb
        obtain ⟨hnumber, htotal⟩ := Batch.first?_eq_some_iff.1 hb
        have ha := (u.begin job batch).remaining_advance_lt job batch none
        rw [hnumber, htotal] at ha
        simp only [phasesRun] at ha
        omega
  | .running job batch phase =>
      have hu : u.remaining = 4 * (batch.total - batch.number) - phasesRun phase := by
        simp only [remaining, hw, Work.remaining]
      rw [hu]
      exact u.remaining_advance_lt job batch phase

structure Drain where
  unit : VectorUnit
  steps : Nat
  events : Array Event
  deriving DecidableEq, Repr

def Drain.finish (d : Drain) : Drain :=
  if d.unit.work = .idle then d
  else
    let turn := d.unit.step
    Drain.finish ⟨turn.unit, d.steps + 1, d.events ++ turn.events⟩
termination_by d.unit.remaining
decreasing_by exact remaining_step_lt (by assumption)

def drain (u : VectorUnit) : Drain :=
  Drain.finish ⟨u, 0, #[]⟩

theorem Drain.work_finish (d : Drain) : d.finish.unit.work = .idle := by
  fun_induction Drain.finish d with
  | case1 d h => exact h
  | case2 d h turn ih => exact ih

theorem work_drain (u : VectorUnit) : u.drain.unit.work = .idle :=
  Drain.work_finish _

end VectorMachine.VectorUnit
