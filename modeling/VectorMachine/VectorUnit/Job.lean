import VectorMachine.Cell
import VectorMachine.MicroOp
import VectorMachine.VectorOp
import VectorMachine.Word

namespace VectorMachine

structure Job where
  op : VectorOp
  src : UnitCell
  dst : UnitCell
  len : Nat
  scalar : Option Word
  deriving DecidableEq, Repr

def batchCount (len lanes : Nat) : Nat :=
  (len + lanes - 1) / lanes

namespace Job

def batches (j : Job) (width : Nat) : Nat :=
  batchCount j.len width

def count (j : Job) (width batch : Nat) : Nat :=
  min width (j.len - batch * width)

end Job

def nextPhase : Option Stage → Stage
  | none | some .writeback => .decode
  | some .decode => .fetch
  | some .fetch => .execute
  | some .execute => .writeback

def phasesRun : Option Stage → Nat
  | none | some .writeback => 0
  | some .decode => 1
  | some .fetch => 2
  | some .execute => 3

theorem nextPhase_eq_writeback_iff {phase : Option Stage} :
    nextPhase phase = .writeback ↔ phase = some .execute := by
  cases phase with
  | none => decide
  | some stage => cases stage <;> decide

theorem phasesRun_nextPhase {phase : Option Stage} (hx : phase ≠ some .execute)
    (hw : phase ≠ some .writeback) :
    phasesRun (some (nextPhase phase)) = phasesRun phase + 1 := by
  cases phase with
  | none => rfl
  | some stage =>
      cases stage with
      | decode | fetch => rfl
      | execute => exact absurd rfl hx
      | writeback => exact absurd rfl hw

structure Batch where
  number : Nat
  total : Nat
  inRange : number < total
  deriving DecidableEq, Repr

namespace Batch

def first? (total : Nat) : Option Batch :=
  if h : total = 0 then none else some ⟨0, total, Nat.pos_of_ne_zero h⟩

def next? (b : Batch) : Option Batch :=
  if h : b.number + 1 = b.total then none
  else some ⟨b.number + 1, b.total, Nat.lt_of_le_of_ne b.inRange h⟩

theorem first?_eq_some_iff {total : Nat} {b : Batch} :
    first? total = some b ↔ b.number = 0 ∧ b.total = total := by
  obtain ⟨number, t, inRange⟩ := b
  simp only [first?]
  split
  · simp only [reduceCtorEq, false_iff]
    omega
  · simp [eq_comm]

theorem first?_eq_none_iff {total : Nat} : first? total = none ↔ total = 0 := by
  simp [first?]

theorem next?_eq_some_iff {b next : Batch} :
    b.next? = some next ↔ next.number = b.number + 1 ∧ next.total = b.total := by
  obtain ⟨number, total, inRange⟩ := next
  simp only [next?]
  split
  · simp only [reduceCtorEq, false_iff]
    omega
  · simp [eq_comm]

theorem next?_eq_none_iff {b : Batch} : b.next? = none ↔ b.number + 1 = b.total := by
  simp [next?]

end Batch

inductive Work where
  | idle
  | queued (job : Job)
  | running (job : Job) (batch : Batch) (phase : Option Stage)
  deriving DecidableEq, Repr

namespace Work

def job? : Work → Option Job
  | .idle => none
  | .queued j => some j
  | .running j _ _ => some j

def pending? : Work → Option Job
  | .queued j => some j
  | _ => none

def active? : Work → Option Job
  | .running j _ _ => some j
  | _ => none

def phase? : Work → Option Stage
  | .running _ _ phase => phase
  | _ => none

def progress? : Work → Option (Nat × Nat)
  | .running _ batch _ => some (batch.number, batch.total)
  | _ => none

def busy (w : Work) : Bool := w.job?.isSome

def remaining (width : Nat) : Work → Nat
  | .idle => 0
  | .queued j => max 1 (4 * j.batches width)
  | .running _ batch phase => 4 * (batch.total - batch.number) - phasesRun phase

end Work

end VectorMachine
