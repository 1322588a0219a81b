import VectorMachine.Proofs.VectorUnit.Interference
import VectorMachine.Proofs.VectorUnit.Representation

namespace VectorMachine

namespace Work

theorem job?_eq_none_iff {w : Work} : w.job? = none ↔ w = .idle := by
  cases w <;> simp [job?]

theorem job?_eq_some_iff {w : Work} {job : Job} :
    w.job? = some job ↔ w.pending? = some job ∨ w.active? = some job := by
  cases w <;> simp [job?, pending?, active?]

theorem length_job? (w : Work) : w.job?.toList.length = if w.busy then 1 else 0 := by
  cases w <;> rfl

def batch : Work → Nat
  | .running _ batch _ => batch.number
  | _ => 0

end Work

namespace VectorUnit

def ending? (u : VectorUnit) : Option Job :=
  if u.step.outcome = .completed then u.work.job? else none

def ended (u : VectorUnit) : Nat → List Job
  | 0 => []
  | k + 1 => u.ending?.toList ++ u.step.unit.ended k

structure Books where
  accepted : List Job := []
  completed : List Job := []
  deriving DecidableEq, Repr

namespace Books

def complete (b : Books) (jobs : List Job) : Books :=
  { b with completed := b.completed ++ jobs }

@[simp]
theorem complete_nil (b : Books) : b.complete [] = b := by
  rw [complete, List.append_nil]

theorem complete_complete (b : Books) (first rest : List Job) :
    (b.complete first).complete rest = b.complete (first ++ rest) := by
  simp only [complete, List.append_assoc]

def enter (b : Books) (u : VectorUnit) : Request → Books
  | .start job =>
      match u.start job with
      | .ok _ => { b with accepted := b.accepted ++ [job] }
      | .error _ => b
  | .step => b.complete (u.ended 1)
  | .drain => b.complete (u.ended u.drain.steps)
  | .reset => {}
  | .write .. | .load .. | .store .. => b

def after (b : Books) (u : VectorUnit) : List Request → Books
  | [] => b
  | r :: rest => (b.enter u r).after (u.serve r) rest

end Books

section Drain

theorem Drain.steps_finish_congr (d e : Drain) (h : d.unit = e.unit) :
    d.finish.steps + e.steps = e.finish.steps + d.steps := by
  fun_induction Drain.finish d generalizing e with
  | case1 d hd =>
      rw [Drain.finish, if_pos (h ▸ hd)]
      exact Nat.add_comm _ _
  | case2 d hd turn ih =>
      have hnext := ih ⟨e.unit.step.unit, e.steps + 1, e.events ++ e.unit.step.events⟩
        (congrArg (fun u => u.step.unit) h)
      rw [Drain.finish.eq_def e, if_neg (h ▸ hd)]
      dsimp only at hnext ⊢
      omega

theorem steps_drain_of_idle {u : VectorUnit} (h : u.work = .idle) : u.drain.steps = 0 := by
  rw [drain, Drain.finish, if_pos h]

theorem steps_drain_step {u : VectorUnit} (h : u.work ≠ .idle) :
    u.drain.steps = u.step.unit.drain.steps + 1 := by
  rw [drain, Drain.finish, if_neg h]
  exact Drain.steps_finish_congr _ ⟨u.step.unit, 0, #[]⟩ rfl

end Drain

section Ending

variable {u : VectorUnit}

theorem outcome_advance_eq_completed_iff (u : VectorUnit) (job : Job) (batch : Batch)
    (phase : Option Stage) :
    (u.advance job batch phase).outcome = .completed ↔
      (u.advance job batch phase).unit.work = .idle := by
  simp only [advance]
  split
  · cases batch.next? with
    | none => simp [complete]
    | some next => simp
  · simp [afterPhase]

theorem outcome_step_eq_completed_iff (h : u.work ≠ .idle) :
    u.step.outcome = .completed ↔ u.step.unit.work = .idle := by
  simp only [step]
  cases hw : u.work with
  | idle => exact absurd hw h
  | queued job =>
      dsimp only
      split
      · simp [complete]
      · exact outcome_advance_eq_completed_iff _ _ _ _
  | running job batch phase => exact outcome_advance_eq_completed_iff _ _ _ _

theorem ending?_eq (u : VectorUnit) :
    u.ending? = if u.step.unit.work = .idle then u.work.job? else none := by
  by_cases hi : u.work = .idle
  · rw [ending?, hi, Work.job?, ite_self, ite_self]
  · simp only [ending?, outcome_step_eq_completed_iff hi]

theorem ending?_append_job? (u : VectorUnit) :
    u.ending?.toList ++ u.step.unit.work.job?.toList = u.work.job?.toList := by
  rw [ending?_eq]
  cases hj : u.step.unit.work.job? with
  | none =>
      rw [if_pos (Work.job?_eq_none_iff.1 hj), Option.toList_none, List.append_nil]
  | some job =>
      have hi : u.step.unit.work ≠ .idle := fun hi => by simp [hi, Work.job?] at hj
      rw [if_neg hi, u.steps_step.job hj]
      rfl

theorem ended_drain (u : VectorUnit) : u.ended u.drain.steps = u.work.job?.toList := by
  induction u using step_induction with
  | idle u h =>
      rw [steps_drain_of_idle h, h]
      rfl
  | busy u h ih => rw [steps_drain_step h, ended, ih, ending?_append_job?]

end Ending

theorem counters_turnOver (u : VectorUnit) (job : Job) (batch : Batch) :
    (u.turnOver job batch).counters =
      { u.counters with
        phases := u.counters.phases + 1
        batches := u.counters.batches + 1
        operations := u.counters.operations + batch.next?.elim 1 fun _ => 0 } := by
  simp only [turnOver]
  cases batch.next? <;> rfl

structure Counts (u v : VectorUnit) (ended : List Job) : Prop where
  operations : v.counters.operations = u.counters.operations + ended.length
  batches : v.counters.batches + u.work.batch =
    u.counters.batches + (ended.map fun job => job.batches u.width).sum + v.work.batch
  phases : v.counters.phases + 4 * u.counters.batches + phasesRun u.work.phase? =
    u.counters.phases + 4 * v.counters.batches + phasesRun v.work.phase?

theorem Steps.counts {u v : VectorUnit} (hs : Steps u v) (hp : u.work.Proper u.width) :
    Counts u v (if v.work = .idle then u.work.job? else none).toList := by
  cases hs with
  | rest hw =>
      rw [hw]
      exact ⟨rfl, rfl, rfl⟩
  | @skip job hw hb =>
      constructor
      · rw [hw]
        rfl
      · simp [hw, complete, pickUp, Work.job?, Work.batch, hb]
      · simp [hw, complete, pickUp, Work.phase?]
  | @pick job batch hw hb =>
      have hnumber := (Batch.first?_eq_some_iff.1 hb).1
      constructor
      · rfl
      · simp [hw, afterPhase, begin, pickUp, Work.batch, hnumber]
      · simp [hw, afterPhase, begin, pickUp, Work.phase?, phasesRun, Nat.add_right_comm]
  | @phase job batch phase hw hx =>
      rw [hw] at hp
      have hrun := phasesRun_nextPhase hx hp.2.1
      constructor
      · rfl
      · simp [hw, afterPhase, Work.batch]
      · simp only [hw, afterPhase, Work.phase?, hrun]
        omega
  | @turnOver job batch hw =>
      rw [hw] at hp
      have htotal : batch.total = job.batches u.width := hp.1
      have hv := u.work_turnOver job batch
      have hc := u.counters_turnOver job batch
      cases hb : batch.next? with
      | some next =>
          have hnumber := (Batch.next?_eq_some_iff.1 hb).1
          rw [hb] at hv hc
          rw [hv, Option.elim_some, if_neg Work.noConfusion]
          constructor
          · rw [hc]
            rfl
          · simp only [hw, hv, hc, Option.elim_some, Work.batch, Option.toList_none, List.map_nil,
              List.sum_nil]
            omega
          · simp only [hw, hv, hc, Option.elim_some, Work.phase?, phasesRun]
            omega
      | none =>
          have hlast := Batch.next?_eq_none_iff.1 hb
          rw [hb] at hv hc
          rw [hv, Option.elim_none, if_pos rfl, hw]
          constructor
          · rw [hc]
            rfl
          · simp only [hw, hv, hc, Option.elim_none, Work.job?, Work.batch, Option.toList_some,
              List.map_cons, List.map_nil, List.sum_cons, List.sum_nil]
            omega
          · simp only [hw, hv, hc, Option.elim_none, Work.phase?, phasesRun]
            omega

theorem start_eq_error_iff {u : VectorUnit} {job : Job} {r : Refusal} :
    u.start job = .error r ↔ ∃ current, u.work.job? = some current ∧ r = .busy current.op := by
  rw [start_eq]
  cases u.work.job? with
  | none => simp
  | some current => simp [eq_comm]

structure Balanced (b : Books) (u : VectorUnit) : Prop where
  jobs : b.accepted = b.completed ++ u.work.job?.toList
  operations : u.counters.operations = b.completed.length
  batches : u.counters.batches =
    (b.completed.map fun job => job.batches u.width).sum + u.work.batch
  phases : u.counters.phases = 4 * u.counters.batches + phasesRun u.work.phase?

section Balanced

variable {b : Books} {u : VectorUnit}

theorem Balanced.step (h : Balanced b u) (hp : u.work.Proper u.width) :
    Balanced (b.complete u.ending?.toList) u.step.unit := by
  have hcounts := u.steps_step.counts hp
  rw [← ending?_eq] at hcounts
  have hjobs := h.jobs
  have hoperations := hcounts.operations
  have hbatches := hcounts.batches
  have hphases := hcounts.phases
  rw [h.operations] at hoperations
  rw [h.batches] at hbatches
  rw [h.phases] at hphases
  constructor
  · rw [Books.complete, List.append_assoc, ending?_append_job?]
    exact h.jobs
  · rw [hoperations, Books.complete, List.length_append]
  · rw [Books.complete, List.map_append, List.sum_append, u.steps_step.width_eq]
    omega
  · omega

theorem Balanced.drain (h : Balanced b u) {memory : Vector Word 128} (hu : u.Holds memory) :
    Balanced (b.complete (u.ended u.drain.steps)) u.drain.unit := by
  induction u using step_induction generalizing b memory with
  | idle u hi =>
      rw [steps_drain_of_idle hi, unit_drain_of_idle hi]
      rwa [ended, Books.complete_nil]
  | busy u hb ih =>
      rw [steps_drain_step hb, unit_drain_step hb, ended, ← Books.complete_complete]
      exact ih (h.step hu.proper) (u.steps_step.holds hu)

theorem Balanced.start (h : Balanced b u) (job : Job) :
    Balanced (b.enter u (.start job)) (u.serve (.start job)) := by
  cases hj : u.work.job? with
  | some current =>
      have hs : u.start job = .error (.busy current.op) :=
        start_eq_error_iff.2 ⟨current, hj, rfl⟩
      simp only [Books.enter, VectorUnit.serve, hs]
      exact h
  | none =>
      have hw := Work.job?_eq_none_iff.1 hj
      have hjobs := h.jobs
      have hbatches := h.batches
      have hphases := h.phases
      rw [hw] at hjobs hbatches hphases
      simp only [Books.enter, VectorUnit.serve, start_of_idle hw job]
      constructor
      · rw [hjobs, List.append_assoc]
        rfl
      · exact h.operations
      · exact hbatches
      · exact hphases

theorem Balanced.serve (h : Balanced b u) {memory : Vector Word 128} (hu : u.Holds memory)
    (r : Request) : Balanced (b.enter u r) (u.serve r) := by
  cases r with
  | start job => exact h.start job
  | step =>
      have hs := h.step hu.proper
      rwa [← List.append_nil u.ending?.toList] at hs
  | drain => exact h.drain hu
  | reset => exact ⟨rfl, rfl, rfl, rfl⟩
  | write | load | store => exact ⟨h.jobs, h.operations, h.batches, h.phases⟩

theorem Balanced.after (h : Balanced b u) {memory : Vector Word 128} (hu : u.Holds memory)
    (requests : List Request) : Balanced (b.after u requests) (u.after requests) := by
  induction requests generalizing b u memory with
  | nil => exact h
  | cons r rest ih =>
      obtain ⟨fetched, hr⟩ := holds_serve hu r
      exact ih (h.serve hu r) hr

end Balanced

end VectorUnit

end VectorMachine
