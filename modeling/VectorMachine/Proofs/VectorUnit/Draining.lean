import VectorMachine.Proofs.VectorUnit.Accounting

namespace VectorMachine

theorem Work.eq_queued_of_pending {w : Work} {job : Job} (h : w.pending? = some job) :
    w = .queued job := by
  cases w with
  | queued j =>
      cases h
      rfl
  | _ => cases h

theorem Job.batches_ne_zero_iff {job : Job} {width : Nat} (h : 0 < width) :
    job.batches width ≠ 0 ↔ job.len ≠ 0 := by
  rw [← Nat.pos_iff_ne_zero, ← Nat.pos_iff_ne_zero, batches, lt_batchCount_iff h, Nat.zero_mul]

namespace VectorUnit

section Remaining

variable {u v : VectorUnit} {memory : Vector Word 128}

theorem remaining_of_work {w : Work} (h : u.work = w) : u.remaining = w.remaining u.width := by
  rw [remaining, h]

theorem Steps.remaining_add_one (hs : Steps u v) (hp : u.work.Proper u.width)
    (hbusy : u.work ≠ .idle) : v.remaining + 1 = u.remaining := by
  cases hs with
  | rest hw => exact absurd hw hbusy
  | @skip job hw hb =>
      rw [remaining_of_work hw, Work.remaining, hb]
      rfl
  | @pick job batch hw hb =>
      obtain ⟨hnumber, htotal⟩ := Batch.first?_eq_some_iff.1 hb
      have hpos := batch.inRange
      have hv : ((u.begin job batch).afterPhase job batch .decode).work =
          .running job batch (some .decode) := rfl
      rw [remaining_of_work hw, remaining_of_work hv]
      simp only [Work.remaining, phasesRun, hnumber, htotal]
      omega
  | @phase job batch phase hw hx =>
      rw [hw] at hp
      have hv : (u.afterPhase job batch (nextPhase phase)).work =
          .running job batch (some (nextPhase phase)) := rfl
      have hrun := phasesRun_nextPhase hx hp.2.1
      have hlast : phasesRun (some (nextPhase phase)) ≤ 3 := by
        cases nextPhase phase <;> decide
      have hlt := batch.inRange
      rw [remaining_of_work hw, remaining_of_work hv]
      simp only [Work.remaining]
      omega
  | @turnOver job batch hw =>
      have hv := u.work_turnOver job batch
      cases hb : batch.next? with
      | some next =>
          obtain ⟨hnumber, htotal⟩ := Batch.next?_eq_some_iff.1 hb
          have hlt := next.inRange
          rw [hb] at hv
          rw [remaining_of_work hw, remaining_of_work hv]
          simp only [Option.elim_some, Work.remaining, phasesRun]
          omega
      | none =>
          have hlast := Batch.next?_eq_none_iff.1 hb
          rw [hb] at hv
          rw [remaining_of_work hw, remaining_of_work hv]
          simp only [Option.elim_none, Work.remaining, phasesRun]
          omega

theorem steps_drain (h : u.Holds memory) : u.drain.steps = u.remaining := by
  induction u using step_induction generalizing memory with
  | idle u hi => rw [steps_drain_of_idle hi, remaining_of_work hi, Work.remaining]
  | busy u hb ih =>
      rw [steps_drain_step hb, ih (u.steps_step.holds h)]
      exact u.steps_step.remaining_add_one h.proper hb

end Remaining

section Loop

variable (u : VectorUnit)

theorem stepped_step (k : Nat) : u.step.unit.stepped k = u.stepped (k + 1) := by
  induction k with
  | zero => rfl
  | succ k ih => exact congrArg (fun v => v.step.unit) ih

theorem unit_drain_eq_stepped : u.drain.unit = u.stepped u.drain.steps := by
  induction u using step_induction with
  | idle u hi => rw [unit_drain_of_idle hi, steps_drain_of_idle hi, stepped]
  | busy u hb ih => rw [unit_drain_step hb, steps_drain_step hb, ih, stepped_step]

theorem busy_stepped {k : Nat} (h : k < u.drain.steps) : (u.stepped k).work ≠ .idle := by
  induction u using step_induction generalizing k with
  | idle u hi =>
      rw [steps_drain_of_idle hi] at h
      exact absurd h (Nat.not_lt_zero k)
  | busy u hb ih =>
      cases k with
      | zero => exact hb
      | succ k =>
          rw [steps_drain_step hb] at h
          rw [← stepped_step]
          exact ih (Nat.lt_of_succ_lt_succ h)

end Loop

section Drain

variable {u : VectorUnit} {memory : Vector Word 128}

theorem operations_drain (h : u.Holds memory) :
    u.drain.unit.counters.operations =
      u.counters.operations + (u.ended u.drain.steps).length := by
  induction u using step_induction generalizing memory with
  | idle u hi =>
      rw [unit_drain_of_idle hi, steps_drain_of_idle hi]
      rfl
  | busy u hb ih =>
      have hcount := (u.steps_step.counts h.proper).operations
      rw [← ending?_eq] at hcount
      rw [unit_drain_step hb, steps_drain_step hb, ih (u.steps_step.holds h), hcount, ended,
        List.length_append, Nat.add_assoc]

theorem drain_of_idle (h : u.work = .idle) : u.drain = ⟨u, 0, #[]⟩ := by
  rw [drain, Drain.finish, if_pos h]

end Drain

structure DrainsExactly (u : VectorUnit) (n : Nat) : Prop where
  unemployed : u.snapshot.pending = none → u.snapshot.active = none → u.drain.steps = 0
  queued : ∀ job, u.snapshot.pending = some job → u.drain.steps = max 1 (4 * (job.len ⌈/⌉ n))
  running : ∀ job, u.snapshot.active = some job →
    ∃ batch, batch < job.len ⌈/⌉ n ∧ u.snapshot.batch = some (batch, job.len ⌈/⌉ n) ∧
      u.drain.steps = 4 * (job.len ⌈/⌉ n - batch) - phasesRun u.snapshot.phase
  unit : u.drain.unit = u.stepped u.drain.steps
  work : ∀ k, k < u.drain.steps →
    (u.stepped k).snapshot.pending.isSome ∨ (u.stepped k).snapshot.active.isSome
  rest : u.drain.unit.snapshot.pending = none ∧ u.drain.unit.snapshot.active = none ∧
    u.drain.unit.snapshot.busy = false
  lanes : u.drain.unit.lanes = List.replicate n .idle
  operations : u.drain.unit.counters.operations =
    u.counters.operations + if u.snapshot.busy then 1 else 0
  again : u.drain.unit.drain = ⟨u.drain.unit, 0, #[]⟩

theorem Holds.drainsExactly {u : VectorUnit} {memory : Vector Word 128} (h : u.Holds memory) :
    u.DrainsExactly u.width := by
  have hsteps := steps_drain h
  have hidle := u.work_drain
  have hceil (job : Job) : job.batches u.width = job.len ⌈/⌉ u.width :=
    batchCount_eq_ceilDiv u.width_pos
  constructor
  case unemployed =>
    intro hpending hactive
    apply steps_drain_of_idle
    rw [← Work.job?_eq_none_iff]
    apply Option.eq_none_iff_forall_ne_some.2
    intro job hjob
    rcases Work.job?_eq_some_iff.1 hjob with hs | hs
    · cases hs.symm.trans hpending
    · cases hs.symm.trans hactive
  case queued =>
    intro job hjob
    have hw := Work.eq_queued_of_pending hjob
    rw [hsteps, remaining_of_work hw, Work.remaining, hceil]
  case running =>
    intro job hjob
    obtain ⟨batch, hprogress, hlt, -⟩ := h.progress hjob
    refine ⟨batch, hlt, hprogress, ?_⟩
    obtain ⟨b, phase, hw⟩ := Work.eq_running_of_active hjob
    rw [hw, Work.progress?, Option.some.injEq, Prod.mk.injEq] at hprogress
    obtain ⟨hnumber, htotal⟩ := hprogress
    rw [hsteps, remaining_of_work hw, Work.remaining, hnumber, htotal, snapshot, hw]
    rfl
  case unit => exact u.unit_drain_eq_stepped
  case work =>
    intro k hk
    apply (Work.busy_iff _).1
    rw [Work.busy, Option.isSome_iff_ne_none]
    exact mt Work.job?_eq_none_iff.1 (u.busy_stepped hk)
  case rest =>
    rw [snapshot, hidle]
    exact ⟨rfl, rfl, rfl⟩
  case lanes =>
    obtain ⟨fetched, hdone⟩ := holds_drain h
    have hlanes := hdone.lanes_eq
    rwa [hidle, u.width_drain] at hlanes
  case operations =>
    rw [operations_drain h, ended_drain, Work.length_job?]
    rfl
  case again => exact drain_of_idle hidle

theorem drain_is_exact (n : Nat) (listeners : Listeners) (requests : List Request) :
    { (new n).after requests with listeners := listeners }.DrainsExactly (max n 1) := by
  obtain ⟨hwidth, memory, h⟩ := holds_after n requests
  have hu : { (new n).after requests with listeners := listeners }.Holds memory :=
    ⟨h.lanes_eq, h.proper⟩
  rw [← hwidth]
  exact hu.drainsExactly

-- Ten elements on three lanes are four batches; two of the sixteen steps are made.
example :
    let job : Job := ⟨.add, Cell.ofNat 0, Cell.ofNat 16, 10, none⟩
    ((new 3).after [.start job, .step, .step]).drain.steps = 14 := by
  decide +kernel

section Phases

variable {u v : VectorUnit}

theorem Steps.not_queued (hs : Steps u v) (job : Job) : v.work ≠ .queued job := by
  intro hv
  cases hs with
  | rest hw => cases hw.symm.trans hv
  | skip hw hb => cases hv
  | pick hw hb => cases hv
  | phase hw hx => cases hv
  | @turnOver _ batch hw =>
      rw [work_turnOver] at hv
      cases hb : batch.next? <;> rw [hb] at hv <;> cases hv

theorem Steps.phases (hs : Steps u v) (hbusy : u.work ≠ .idle)
    (hfull : ∀ job, u.work = .queued job → job.batches u.width ≠ 0) :
    v.counters.phases = u.counters.phases + 1 := by
  cases hs with
  | rest hw => exact absurd hw hbusy
  | skip hw hb => exact absurd hb (hfull _ hw)
  | pick hw hb => rfl
  | phase hw hx => rfl
  | turnOver hw => rw [counters_turnOver]

theorem phases_drain (hfull : ∀ job, u.work = .queued job → job.batches u.width ≠ 0) :
    u.drain.unit.counters.phases = u.counters.phases + u.drain.steps := by
  induction u using step_induction with
  | idle u hi =>
      rw [unit_drain_of_idle hi, steps_drain_of_idle hi]
      rfl
  | busy u hb ih =>
      have hnext (job : Job) (hq : u.step.unit.work = .queued job) :
          job.batches u.step.unit.width ≠ 0 :=
        absurd hq (u.steps_step.not_queued job)
      rw [unit_drain_step hb, steps_drain_step hb, ih hnext, u.steps_step.phases hb hfull]
      omega

theorem drain_of_empty {job : Job} (hw : u.work = .queued job) (hb : job.batches u.width = 0) :
    u.drain.steps = 1 ∧ u.drain.unit.counters.phases = u.counters.phases := by
  have hbusy : u.work ≠ .idle := hw ▸ Work.noConfusion
  have hidle : ((u.pickUp job).complete job.op).unit.work = .idle := rfl
  rw [steps_drain_step hbusy, unit_drain_step hbusy, step_of_empty hw hb,
    steps_drain_of_idle hidle, unit_drain_of_idle hidle]
  exact ⟨rfl, rfl⟩

end Phases

theorem drain_counts_its_phases (n : Nat) (listeners : Listeners) (requests : List Request) :
    let u := { (new n).after requests with listeners := listeners }
    (u.drain.unit.counters.phases = u.counters.phases + u.drain.steps ↔
      ∀ job, u.snapshot.pending = some job → job.len ≠ 0) ∧
    ∀ job, u.snapshot.pending = some job → job.len = 0 →
      u.drain.steps = 1 ∧ u.drain.unit.counters.phases = u.counters.phases := by
  intro u
  obtain ⟨-, memory, h⟩ := holds_after n requests
  have hwidth : 0 < u.width := u.width_pos
  have hvoid (job : Job) (hjob : u.snapshot.pending = some job) (hlen : job.len = 0) :
      u.drain.steps = 1 ∧ u.drain.unit.counters.phases = u.counters.phases := by
    have hb : job.batches u.width = 0 := by
      rw [← not_ne_iff, Job.batches_ne_zero_iff hwidth, not_ne_iff]
      exact hlen
    exact drain_of_empty (Work.eq_queued_of_pending hjob) hb
  refine ⟨⟨?_, ?_⟩, hvoid⟩
  · intro hcount job hjob hlen
    obtain ⟨hsteps, hphases⟩ := hvoid job hjob hlen
    omega
  · intro hfull
    apply phases_drain
    intro job hw
    rw [Job.batches_ne_zero_iff hwidth]
    apply hfull job
    rw [snapshot, hw]
    rfl

theorem not_every_drain_counts_its_phases :
    ¬ ∀ (n : Nat) (requests : List Request),
      ((new n).after requests).drain.unit.counters.phases =
        ((new n).after requests).counters.phases + ((new n).after requests).drain.steps := by
  intro h
  have hsum := h 8 [.start ⟨.sum, Cell.ofNat 0, Cell.ofNat 0, 0, none⟩]
  revert hsum
  decide +kernel

end VectorUnit

end VectorMachine
