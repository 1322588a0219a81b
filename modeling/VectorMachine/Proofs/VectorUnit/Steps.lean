import VectorMachine.Proofs.VectorUnit.Batch

namespace VectorMachine

namespace VectorUnit

theorem idle_or_queued {u : VectorUnit} (h : u.work.active? = none) :
    u.work = .idle ∨ ∃ job, u.work = .queued job := by
  cases hw : u.work with
  | idle => exact .inl rfl
  | queued job => exact .inr ⟨job, rfl⟩
  | running job batch phase =>
      rw [hw] at h
      cases h

def turnOver (u : VectorUnit) (job : Job) (batch : Batch) : VectorUnit :=
  let written := (u.afterPhase job batch .writeback).countBatch
  match batch.next? with
  | none => (written.complete job.op).unit
  | some next => { written with work := .running job next none }

inductive Steps (u : VectorUnit) : VectorUnit → Prop where
  | rest (h : u.work = .idle) : Steps u u
  | skip {job : Job} (h : u.work = .queued job) (hb : job.batches u.width = 0) :
      Steps u ((u.pickUp job).complete job.op).unit
  | pick {job : Job} {batch : Batch} (h : u.work = .queued job)
      (hb : Batch.first? (job.batches u.width) = some batch) :
      Steps u ((u.begin job batch).afterPhase job batch .decode)
  | phase {job : Job} {batch : Batch} {phase : Option Stage}
      (h : u.work = .running job batch phase) (hp : phase ≠ some .execute) :
      Steps u (u.afterPhase job batch (nextPhase phase))
  | turnOver {job : Job} {batch : Batch} (h : u.work = .running job batch (some .execute)) :
      Steps u (u.turnOver job batch)

theorem unit_advance_execute (u : VectorUnit) (job : Job) (batch : Batch) :
    (u.advance job batch (some .execute)).unit = u.turnOver job batch := by
  simp only [advance, turnOver, nextPhase, if_true]
  cases batch.next? <;> rfl

theorem steps_iff {u v : VectorUnit} : Steps u v ↔ u.step.unit = v := by
  constructor
  · intro h
    cases h with
    | rest h => simp only [step, h]
    | skip h hb => rw [step_of_empty h hb]
    | pick h hb =>
        rw [step_queued h hb]
        exact unit_advance (by decide)
    | phase h hp =>
        rw [step_running h]
        exact unit_advance (mt nextPhase_eq_writeback_iff.1 hp)
    | turnOver h => rw [step_running h, unit_advance_execute]
  · intro h
    subst h
    cases hw : u.work with
    | idle =>
        have hs : u.step.unit = u := by simp only [step, hw]
        rw [hs]
        exact .rest hw
    | queued job =>
        cases hb : Batch.first? (job.batches u.width) with
        | none =>
            have hnone := Batch.first?_eq_none_iff.1 hb
            rw [step_of_empty hw hnone]
            exact .skip hw hnone
        | some batch =>
            rw [step_queued hw hb, unit_advance (by decide)]
            exact .pick hw hb
    | running job batch phase =>
        rw [step_running hw]
        by_cases hp : phase = some .execute
        · rw [hp, unit_advance_execute]
          exact .turnOver (hp ▸ hw)
        · rw [unit_advance (mt nextPhase_eq_writeback_iff.1 hp)]
          exact .phase hw hp

section TurnOver

variable (u : VectorUnit) (job : Job) (batch : Batch)

theorem lanes_turnOver :
    (u.turnOver job batch).lanes = (u.writeBatch job batch.number).lanes := by
  simp only [turnOver]
  cases batch.next? <;> rfl

theorem memory_turnOver :
    (u.turnOver job batch).memory = (u.writeBatch job batch.number).memory := by
  simp only [turnOver]
  cases batch.next? <;> rfl

theorem result_turnOver :
    (u.turnOver job batch).result = (u.writeBatch job batch.number).result := by
  simp only [turnOver]
  cases batch.next? <;> rfl

theorem work_turnOver : (u.turnOver job batch).work =
    batch.next?.elim .idle fun next => .running job next none := by
  simp only [turnOver]
  cases batch.next? <;> rfl

theorem width_turnOver : (u.turnOver job batch).width = u.width := by
  rw [width, lanes_turnOver]
  exact u.width_runPhase job batch.number .writeback

end TurnOver

namespace Steps

variable {u v : VectorUnit}

theorem width_eq (h : Steps u v) : v.width = u.width := by
  cases h with
  | rest h => rfl
  | @skip job h hb => exact u.width_pickUp job
  | pick h hb => exact ((u.begin _ _).width_afterPhase _ _ _).trans (u.width_begin _ _)
  | phase h hp => exact u.width_afterPhase _ _ _
  | turnOver h => exact u.width_turnOver _ _

end Steps

theorem steps_step (u : VectorUnit) : Steps u u.step.unit :=
  steps_iff.2 rfl

theorem step_induction {P : VectorUnit → Prop} (idle : ∀ u, u.work = .idle → P u)
    (busy : ∀ u, u.work ≠ .idle → P u.step.unit → P u) (u : VectorUnit) : P u := by
  by_cases h : u.work = .idle
  · exact idle u h
  · exact busy u h (step_induction idle busy u.step.unit)
termination_by u.remaining
decreasing_by exact remaining_step_lt h

theorem width_drain (u : VectorUnit) : u.drain.unit.width = u.width := by
  induction u using step_induction with
  | idle u h => rw [unit_drain_of_idle h]
  | busy u h ih => rw [unit_drain_step h, ih, u.steps_step.width_eq]

end VectorUnit

end VectorMachine
