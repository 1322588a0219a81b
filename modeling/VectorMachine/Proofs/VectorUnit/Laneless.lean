import VectorMachine.Proofs.VectorUnit.Elementwise
import VectorMachine.Proofs.VectorUnit.Interference
import VectorMachine.Proofs.VectorUnit.Reduction

namespace VectorMachine

def Job.Safe (j : Job) : Prop := j.op.reduction = false → j.HazardFree

namespace VectorUnit

def laneless (u : VectorUnit) : VectorUnit :=
  { u with
    lanes := [.idle]
    counters := { u.counters with phases := 0, batches := 0 }
    hasLane := Nat.one_pos }

def performed (u : VectorUnit) (job : Job) : VectorUnit :=
  { u with
    memory := if job.op.reduction then u.memory
      else storeFrom u.memory job.dst 0 (job.words u.memory 0 job.len)
    result := if job.op.reduction then job.folded u.memory job.len else u.result
    work := .idle
    counters := { u.counters with operations := u.counters.operations + 1 } }

section RunBatches

variable (u : VectorUnit) (job : Job) (first count : Nat)

theorem lanes_runBatches : (u.runBatches job first count).lanes = u.lanes := by
  induction count with
  | zero => rfl
  | succ count ih => rw [runBatches_succ, ← ih, afterBatch]

theorem laneless_runBatches : (u.runBatches job first count).laneless =
    { u.laneless with
      memory := (u.runBatches job first count).memory
      result := (u.runBatches job first count).result
      work := (u.runBatches job first count).work } := by
  induction count with
  | zero => rfl
  | succ count ih =>
      have hl := congrArg VectorUnit.listeners ih
      have hc := congrArg VectorUnit.counters ih
      rw [runBatches_succ]
      simp only [laneless, afterBatch] at hl hc ⊢
      rw [hl]
      congr 1

end RunBatches

section Drain

variable {u : VectorUnit} {job : Job}

theorem start_of_queued (h : u.work = .queued job) :
    { u with work := .idle }.start job = .ok u := by
  rw [start_of_idle rfl, ← h]

theorem unit_drain_of_queued (h : u.work = .queued job) : u.drain.unit =
    (((u.pickUp job).runBatches job 0 (job.batches u.width)).complete job.op).unit := by
  have hdrain := drain_start (start_of_queued h)
  exact hdrain

theorem lanes_drain_of_queued (h : u.work = .queued job) :
    u.drain.unit.lanes = List.replicate u.width .idle := by
  rw [unit_drain_of_queued h]
  exact (lanes_runBatches _ _ _ _).trans u.lanes_clearLanes

theorem memory_drain_of_queued (h : u.work = .queued job) (hs : job.Safe) :
    u.drain.unit.memory = (u.performed job).memory := by
  rw [performed]
  cases hr : job.op.reduction with
  | true => exact (folded_drain_start hr (start_of_queued h)).1
  | false =>
      have hm := memory_drain_start hr (hs hr) (start_of_queued h)
      exact hm

theorem result_drain_of_queued (h : u.work = .queued job) :
    u.drain.unit.result = (u.performed job).result := by
  rw [performed]
  cases hr : job.op.reduction with
  | true => exact (folded_drain_start hr (start_of_queued h)).2
  | false =>
      rw [unit_drain_of_queued h]
      refine (result_runBatches hr _).trans ?_
      simp only [pickUp, hr]
      rfl

theorem laneless_drain_of_queued (h : u.work = .queued job) (hs : job.Safe) :
    u.drain.unit.laneless = u.laneless.performed job := by
  have hb := laneless_runBatches (u.pickUp job) job 0 (job.batches u.width)
  have hrest : u.drain.unit.laneless =
      { u.laneless with
        memory := u.drain.unit.memory
        result := u.drain.unit.result
        work := .idle
        counters := { u.laneless.counters with operations := u.counters.operations + 1 } } := by
    rw [unit_drain_of_queued h]
    exact congrArg (fun v => (complete v job.op).unit) hb
  rw [hrest, memory_drain_of_queued h hs, result_drain_of_queued h]
  rfl

end Drain

end VectorUnit

end VectorMachine
