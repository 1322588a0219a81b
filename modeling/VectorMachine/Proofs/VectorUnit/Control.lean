import VectorMachine.Proofs.VectorUnit.Requests

namespace VectorMachine.VectorUnit

structure Active where
  job : Job
  batch : Nat
  batches : Nat
  phase : Option Stage
  deriving DecidableEq, Repr

structure Control where
  pending : Option Job := none
  active : Option Active := none
  busy : Bool := false
  deriving DecidableEq, Repr

namespace Control

def hasWork (c : Control) : Bool := c.pending.isSome || c.active.isSome

def queue (job : Job) : EStateM Refusal Control Unit := do
  let c ← get
  if c.busy then
    let current := c.active.map (fun a => a.job.op) <|> c.pending.map Job.op
    throw (.busy (current.getD job.op))
  set { c with pending := some job, busy := true }

def complete (c : Control) : Outcome × Control :=
  (.completed, { c with busy := false })

def advance (c : Control) : Outcome × Control :=
  match c.active with
  | none => (.idle, c)
  | some a =>
      let stage := nextPhase a.phase
      let next := { a with phase := some stage }
      if stage = .writeback then
        let turned := { next with batch := next.batch + 1, phase := none }
        if turned.batch = turned.batches then { c with active := none }.complete
        else (.advanced stage, { c with active := some turned })
      else
        (.advanced stage, { c with active := some next })

def step (width : Nat) (c : Control) : Outcome × Control :=
  if c.active.isNone then
    match c.pending with
    | none => (.idle, c)
    | some job =>
        let taken := { c with pending := none }
        let batches := job.batches width
        if batches = 0 then taken.complete
        else { taken with active := some ⟨job, 0, batches, none⟩ }.advance
  else
    c.advance

inductive Drains (width : Nat) : Control → Control → Prop where
  | rest {c : Control} (h : c.hasWork = false) : Drains width c c
  | step {c d : Control} (h : c.hasWork = true) (rest : Drains width (c.step width).2 d) :
      Drains width c d

inductive Serves (width : Nat) (c : Control) : Request → Control → Prop where
  | accept {job : Job} {d : Control} (h : queue job c = .ok () d) : Serves width c (.start job) d
  | refuse {job : Job} {r : Refusal} {d : Control} (h : queue job c = .error r d) :
      Serves width c (.start job) d
  | step : Serves width c .step (c.step width).2
  | drain {d : Control} (h : Drains width c d) : Serves width c .drain d
  | reset : Serves width c .reset {}
  | other {r : Request} (hp : r.passive = true) (hs : ∀ job, r ≠ .start job) : Serves width c r c

inductive Runs (width : Nat) : Control → List Request → Control → Prop where
  | nil (c : Control) : Runs width c [] c
  | cons {c d e : Control} {r : Request} {rest : List Request} (first : Serves width c r d)
      (later : Runs width d rest e) : Runs width c (r :: rest) e

structure Ongoing (width : Nat) (a : Active) : Prop where
  batches_eq : a.batches = a.job.batches width
  batch_lt : a.batch < a.batches
  phase_ne : a.phase ≠ some .writeback
  first : a.phase = none → 0 < a.batch

structure Coherent (width : Nat) (c : Control) : Prop where
  busy_iff : c.busy = true ↔ c.pending.isSome ∨ c.active.isSome
  exclusive : c.pending = none ∨ c.active = none
  ongoing : ∀ a, c.active = some a → Ongoing width a

section Run

variable {width : Nat} {c d e : Control}

theorem queue_of_busy (h : c.busy = true) (job : Job) : queue job c =
    .error (.busy (((c.active.map fun a => a.job.op) <|> c.pending.map Job.op).getD job.op)) c := by
  obtain ⟨pending, active, busy⟩ := c
  obtain rfl : busy = true := h
  rfl

theorem queue_of_not_busy (h : c.busy = false) (job : Job) :
    queue job c = .ok () { c with pending := some job, busy := true } := by
  obtain ⟨pending, active, busy⟩ := c
  obtain rfl : busy = false := h
  rfl

theorem step_of_active {a : Active} (h : c.active = some a) : c.step width = c.advance := by
  rw [step, h]
  rfl

theorem Drains.unique (hd : Drains width c d) (he : Drains width c e) : d = e := by
  induction hd with
  | rest hrest =>
      cases he with
      | rest => rfl
      | step hwork => cases hrest.symm.trans hwork
  | step hwork _ ih =>
      cases he with
      | rest hrest => cases hrest.symm.trans hwork
      | step _ hlater => exact ih hlater

theorem Serves.unique {r : Request} (hd : Serves width c r d) (he : Serves width c r e) :
    d = e := by
  cases hd with
  | accept hd =>
      cases he with
      | accept he => cases hd.symm.trans he; rfl
      | refuse he => cases hd.symm.trans he
      | other _ hs => exact absurd rfl (hs _)
  | refuse hd =>
      cases he with
      | accept he => cases hd.symm.trans he
      | refuse he => cases hd.symm.trans he; rfl
      | other _ hs => exact absurd rfl (hs _)
  | step =>
      cases he with
      | step => rfl
      | other hp => cases hp
  | drain hd =>
      cases he with
      | drain he => exact hd.unique he
      | other hp => cases hp
  | reset =>
      cases he with
      | reset => rfl
      | other hp => cases hp
  | other hp hs =>
      cases he with
      | accept => exact absurd rfl (hs _)
      | refuse => exact absurd rfl (hs _)
      | other => rfl
      | _ => cases hp

theorem Runs.unique {requests : List Request} (hd : Runs width c requests d)
    (he : Runs width c requests e) : d = e := by
  induction hd with
  | nil => cases he; rfl
  | cons first _ ih =>
      cases he with
      | cons first' later' =>
          obtain rfl := first.unique first'
          exact ih later'

theorem coherent_idle : Coherent width {} :=
  ⟨by simp, .inl rfl, nofun⟩

theorem coherent_advance {a : Active} (hpending : c.pending = none) (hbusy : c.busy = true)
    (ha : c.active = some a) (htotal : a.batches = a.job.batches width)
    (hlt : a.batch < a.batches) : Coherent width c.advance.2 := by
  simp only [advance, ha]
  split
  · split
    · exact ⟨by simp [complete, hpending], .inl hpending, nofun⟩
    · rename_i hlast
      refine ⟨by simp [hbusy], .inl hpending, ?_⟩
      intro b hb
      obtain rfl := Option.some.inj hb
      exact ⟨htotal, Nat.lt_of_le_of_ne hlt hlast, nofun, fun _ => Nat.succ_pos _⟩
  · rename_i hstage
    refine ⟨by simp [hbusy], .inl hpending, ?_⟩
    intro b hb
    obtain rfl := Option.some.inj hb
    exact ⟨htotal, hlt, mt Option.some.inj hstage, nofun⟩

namespace Coherent

variable (h : Coherent width c)
include h

theorem of_not_busy (hb : c.busy = false) : c.pending = none ∧ c.active = none := by
  simpa [hb] using h.busy_iff

theorem of_pending {job : Job} (hp : c.pending = some job) : c.active = none ∧ c.busy = true :=
  ⟨h.exclusive.resolve_left (by simp [hp]), h.busy_iff.2 (.inl (by simp [hp]))⟩

theorem of_active {a : Active} (ha : c.active = some a) : c.pending = none ∧ c.busy = true :=
  ⟨h.exclusive.resolve_right (by simp [ha]), h.busy_iff.2 (.inr (by simp [ha]))⟩

theorem queue_ok {job : Job} (hq : queue job c = .ok () d) : Coherent width d := by
  cases hb : c.busy with
  | true => cases (queue_of_busy hb job).symm.trans hq
  | false =>
      obtain rfl : _ = d := by injection (queue_of_not_busy hb job).symm.trans hq
      have hidle : c.active = none := (h.of_not_busy hb).2
      refine ⟨by simp, .inr hidle, ?_⟩
      intro a ha
      cases hidle.symm.trans ha

theorem queue_eq_error_iff {job : Job} {r : Refusal} : queue job c = .error r d ↔
    d = c ∧ ∃ current, (c.pending = some current ∨ c.active.map Active.job = some current) ∧
      r = .busy current.op := by
  cases hb : c.busy with
  | false => simp [queue_of_not_busy hb, h.of_not_busy hb]
  | true =>
      rw [queue_of_busy hb]
      rcases h.busy_iff.1 hb with hp | ha
      · obtain ⟨current, hp⟩ := Option.isSome_iff_exists.1 hp
        simp [hp, (h.of_pending hp).1, eq_comm, and_comm]
      · obtain ⟨a, ha⟩ := Option.isSome_iff_exists.1 ha
        simp [ha, (h.of_active ha).1, eq_comm, and_comm]

theorem step : Coherent width (c.step width).2 := by
  cases ha : c.active with
  | some a =>
      obtain ⟨hpending, hbusy⟩ := h.of_active ha
      have hongoing := h.ongoing a ha
      rw [step_of_active ha]
      exact coherent_advance hpending hbusy ha hongoing.batches_eq hongoing.batch_lt
  | none =>
      simp only [Control.step, ha, Option.isNone_none, if_true]
      cases hp : c.pending with
      | none => exact h
      | some job =>
          have hbusy : c.busy = true := (h.of_pending hp).2
          dsimp only
          split
          · exact coherent_idle
          · rename_i hb
            exact coherent_advance rfl hbusy rfl rfl (Nat.pos_of_ne_zero hb)

end Coherent

theorem Drains.coherent (hd : Drains width c d) (h : Coherent width c) : Coherent width d := by
  induction hd with
  | rest => exact h
  | step _ _ ih => exact ih h.step

theorem Serves.coherent {r : Request} (hs : Serves width c r d) (h : Coherent width c) :
    Coherent width d := by
  cases hs with
  | accept hq => exact h.queue_ok hq
  | refuse hq => exact (h.queue_eq_error_iff.1 hq).1 ▸ h
  | step => exact h.step
  | drain hd => exact hd.coherent h
  | reset => exact coherent_idle
  | other => exact h

theorem Runs.coherent {requests : List Request} (hr : Runs width c requests d)
    (h : Coherent width c) : Coherent width d := by
  induction hr with
  | nil => exact h
  | cons first _ ih => exact ih (first.coherent h)

end Run

end Control

def control (u : VectorUnit) : Control :=
  match u.work with
  | .idle => {}
  | .queued job => { pending := some job, busy := true }
  | .running job batch phase =>
      { active := some ⟨job, batch.number, batch.total, phase⟩, busy := true }

section Tie

variable (u : VectorUnit)

theorem advance_control (job : Job) (batch : Batch) (phase : Option Stage) :
    Control.advance { active := some ⟨job, batch.number, batch.total, phase⟩, busy := true } =
      ((u.advance job batch phase).outcome, (u.advance job batch phase).unit.control) := by
  simp only [Control.advance, VectorUnit.advance]
  split
  · cases hb : batch.next? with
    | none =>
        have hlast := Batch.next?_eq_none_iff.1 hb
        simp only [hlast, if_true]
        rfl
    | some next =>
        obtain ⟨hnumber, htotal⟩ := Batch.next?_eq_some_iff.1 hb
        have hne : batch.number + 1 ≠ batch.total := by
          have hlt := next.inRange
          omega
        simp only [hne, if_false, control, hnumber, htotal]
  · rfl

theorem step_control : u.control.step u.width = (u.step.outcome, u.step.unit.control) := by
  cases hw : u.work with
  | idle => simp [step, control, Control.step, hw]
  | queued job =>
      cases hb : Batch.first? (job.batches u.width) with
      | none =>
          have hempty := Batch.first?_eq_none_iff.1 hb
          rw [step_of_empty hw hempty]
          simp [control, Control.step, hw, hempty, complete, Control.complete]
      | some batch =>
          obtain ⟨hnumber, htotal⟩ := Batch.first?_eq_some_iff.1 hb
          have hne : job.batches u.width ≠ 0 := by
            have hlt := batch.inRange
            omega
          rw [step_queued hw hb, ← advance_control (u.begin job batch), hnumber, htotal]
          simp [control, Control.step, hw, hne]
  | running job batch phase =>
      rw [step_running hw, ← advance_control, control, hw]
      rfl

theorem busy_control : u.control.busy = true ↔ u.work ≠ .idle := by
  cases hw : u.work <;> simp [control, hw]

theorem hasWork_control : u.control.hasWork = true ↔ u.work ≠ .idle := by
  cases hw : u.work <;> simp [control, Control.hasWork, hw]

theorem drains_control : Control.Drains u.width u.control u.drain.unit.control := by
  induction u using step_induction with
  | idle u h =>
      have hrest : u.control.hasWork = false := by simp only [control, h]; rfl
      rw [unit_drain_of_idle h]
      exact .rest hrest
  | busy u h ih =>
      rw [u.steps_step.width_eq] at ih
      rw [unit_drain_step h]
      refine .step (u.hasWork_control.2 h) ?_
      rw [step_control]
      exact ih

theorem serves_control (r : Request) : Control.Serves u.width u.control r (u.serve r).control := by
  cases r with
  | start job =>
      rw [serve_start]
      split
      · rename_i hw
        have hc : u.control = {} := by rw [control, hw]
        rw [hc]
        exact .accept rfl
      · rename_i hw
        exact .refuse (Control.queue_of_busy (u.busy_control.2 hw) job)
  | step =>
      have hs : (u.serve .step).control = (u.control.step u.width).2 := by rw [step_control]; rfl
      rw [hs]
      exact .step
  | drain => exact .drain u.drains_control
  | reset => exact .reset
  | _ => exact .other rfl fun _ => Request.noConfusion

theorem runs_control (requests : List Request) :
    Control.Runs u.width u.control requests (u.after requests).control := by
  induction requests generalizing u with
  | nil => exact .nil _
  | cons r rest ih =>
      have hrest := ih (u.serve r)
      rw [width_serve] at hrest
      exact .cons (u.serves_control r) hrest

end Tie

structure Snapshot.Shows (s : Snapshot) (c : Control) : Prop where
  busy : s.busy = c.busy
  pending : s.pending = c.pending
  active : s.active = c.active.map Active.job
  phase : s.phase = c.active.bind Active.phase
  batch : s.batch = c.active.map fun a => (a.batch, a.batches)

theorem shows_control (u : VectorUnit) : u.snapshot.Shows u.control := by
  cases hw : u.work <;> constructor <;> simp only [snapshot, control, hw] <;> rfl

end VectorMachine.VectorUnit
