import Mathlib.Algebra.Order.Floor.Div
import VectorMachine.Proofs.VectorUnit.Control

namespace VectorMachine

theorem batchCount_eq_ceilDiv {len lanes : Nat} (h : 0 < lanes) :
    batchCount len lanes = len ⌈/⌉ lanes := by
  refine eq_of_forall_ge_iff fun k => ?_
  rw [ceilDiv_le_iff_le_mul h, ← not_lt, lt_batchCount_iff h, not_lt, Nat.mul_comm]

namespace Job

def laneAfter (j : Job) (memory : Vector Word 128) (i : Nat) : Option Stage → Lane
  | none | some .writeback => .idle
  | some .decode => Lane.idle.decode j.op
  | some .fetch => (Lane.idle.decode j.op).fetch (memory.get (j.src.offset i))
      (if j.op.readsDestination then memory.get (j.dst.offset i) else 0)
  | some .execute => j.lane memory i .idle

def laneRow (j : Job) (memory : Vector Word 128) (width batch : Nat) (phase : Option Stage) :
    List Lane :=
  Lane.onFirst (j.count width batch) (fun i _ => j.laneAfter memory (batch * width + i) phase)
    (List.replicate width .idle)

theorem laneRow_none (j : Job) (memory : Vector Word 128) (width batch : Nat) :
    j.laneRow memory width batch none = List.replicate width .idle :=
  Lane.onFirst_idle _ _

theorem lane_of_laneRow {j : Job} {memory : Vector Word 128} {width batch : Nat}
    {phase : Option Stage} {i : Nat} {l : Lane}
    (h : (j.laneRow memory width batch phase)[i]? = some l) :
    l = if i < j.count width batch then j.laneAfter memory (batch * width + i) phase
      else .idle := by
  simp only [laneRow, Lane.onFirst, List.getElem?_mapIdx, Option.map_eq_some_iff] at h
  obtain ⟨a, ha, hl⟩ := h
  have hidle : a = .idle := (List.mem_replicate.1 (List.mem_of_getElem? ha)).2
  rw [← hl, hidle]

theorem laneAfter_engaged {j : Job} {memory : Vector Word 128} {i : Nat} {stage : Stage}
    (h : stage ≠ .writeback) :
    (j.laneAfter memory i (some stage)).busy = true ∧
      (j.laneAfter memory i (some stage)).opcode = some j.op := by
  cases stage with
  | writeback => exact absurd rfl h
  | _ => exact ⟨rfl, rfl⟩

end Job

namespace Work

def lanes (memory : Vector Word 128) (width : Nat) : Work → List Lane
  | .running job batch phase => job.laneRow memory width batch.number phase
  | _ => List.replicate width .idle

/-- A job at work has as many batches as its elements fill, and a phase of its first has run. -/
def Proper (width : Nat) : Work → Prop
  | .running job batch phase => batch.total = job.batches width ∧ phase ≠ some .writeback ∧
      (phase = none → 0 < batch.number)
  | _ => True

def engaged (width : Nat) : Work → Nat
  | .running job batch (some _) => job.count width batch.number
  | _ => 0

theorem busy_iff (w : Work) : w.busy = true ↔ w.pending?.isSome ∨ w.active?.isSome := by
  cases w <;> simp [busy, job?, pending?, active?]

theorem eq_running_of_active {w : Work} {job : Job} (h : w.active? = some job) :
    ∃ batch phase, w = .running job batch phase := by
  cases w with
  | running j batch phase =>
      cases h
      exact ⟨batch, phase, rfl⟩
  | _ => cases h

theorem engaged_le (w : Work) (width : Nat) : w.engaged width ≤ width := by
  cases w with
  | running job batch phase =>
      cases phase with
      | none => exact Nat.zero_le _
      | some stage => exact job.count_le width batch.number
  | _ => exact Nat.zero_le _

variable {memory : Vector Word 128} {width i : Nat} {l : Lane}

theorem engaged_lane {w : Work} (hp : w.Proper width) (h : (w.lanes memory width)[i]? = some l)
    (hi : i < w.engaged width) : l.busy = true ∧ l.opcode = w.active?.map Job.op := by
  cases w with
  | running job batch phase =>
      cases phase with
      | none => exact absurd hi (Nat.not_lt_zero i)
      | some stage =>
          have hi' : i < job.count width batch.number := hi
          have hl := Job.lane_of_laneRow h
          rw [if_pos hi'] at hl
          rw [hl]
          exact Job.laneAfter_engaged fun he => hp.2.1 (congrArg some he)
  | _ => exact absurd hi (Nat.not_lt_zero i)

theorem idle_lane {w : Work} (h : (w.lanes memory width)[i]? = some l)
    (hi : w.engaged width ≤ i) : l = .idle := by
  cases w with
  | running job batch phase =>
      have hl := Job.lane_of_laneRow h
      cases phase with
      | none => exact hl.trans (ite_self _)
      | some stage =>
          have hi' : job.count width batch.number ≤ i := hi
          rwa [if_neg (Nat.not_lt.2 hi')] at hl
  | _ => exact (List.mem_replicate.1 (List.mem_of_getElem? h)).2

end Work

namespace VectorUnit

structure Holds (u : VectorUnit) (memory : Vector Word 128) : Prop where
  lanes_eq : u.lanes = u.work.lanes memory u.width
  proper : u.work.Proper u.width

/-- The memory that the lanes are filled from, once the next step is done. -/
def fetchedFrom (u : VectorUnit) (memory : Vector Word 128) : Vector Word 128 :=
  match u.work with
  | .running _ _ (some .decode) => u.memory
  | _ => memory

theorem holds_of_lanesIdle {u : VectorUnit} (hl : u.lanesIdle) (hi : u.work.active? = none)
    (memory : Vector Word 128) : u.Holds memory := by
  rcases idle_or_queued hi with h | ⟨job, h⟩
  all_goals
    refine ⟨?_, ?_⟩
    · rw [h]
      exact hl
    · rw [h]
      trivial

theorem lanes_afterPhase {u : VectorUnit} {memory : Vector Word 128} {job : Job} {batch : Batch}
    {phase : Option Stage} (hl : u.lanes = job.laneRow memory u.width batch.number phase)
    (hp : phase ≠ some .writeback) (hx : phase ≠ some .execute) :
    (u.afterPhase job batch (nextPhase phase)).lanes =
      job.laneRow (if phase = some .decode then u.memory else memory) u.width batch.number
        (some (nextPhase phase)) := by
  cases phase with
  | none =>
      simp only [afterPhase, runPhase, nextPhase, decodeBatch, onLanes, hl, Job.laneRow,
        Lane.onFirst_onFirst]
      rfl
  | some stage =>
      cases stage with
      | decode =>
          simp only [afterPhase, runPhase, nextPhase, fetchBatch, onLanes, hl, Job.laneRow,
            Lane.onFirst_onFirst]
          rfl
      | fetch =>
          simp only [afterPhase, runPhase, nextPhase, executeBatch, onLanes, hl, Job.laneRow,
            Lane.onFirst_onFirst]
          rfl
      | execute => exact absurd rfl hx
      | writeback => exact absurd rfl hp

theorem lanesIdle_turnOver {u : VectorUnit} {memory : Vector Word 128} {job : Job} {batch : Batch}
    {phase : Option Stage} (hl : u.lanes = job.laneRow memory u.width batch.number phase) :
    (u.turnOver job batch).lanesIdle := by
  have hw : (u.writeBatch job batch.number).lanes =
      Lane.onFirst (job.count u.width batch.number) (fun _ _ => .idle) u.lanes := by
    simp only [writeBatch]
    split <;> rfl
  rw [lanesIdle, width_turnOver, lanes_turnOver, hw, hl, Job.laneRow, Lane.onFirst_onFirst]
  exact Lane.onFirst_idle _ _

theorem holds_afterPhase {u : VectorUnit} {memory : Vector Word 128} {job : Job} {batch : Batch}
    {phase : Option Stage} (hl : u.lanes = job.laneRow memory u.width batch.number phase)
    (hb : batch.total = job.batches u.width) (hp : phase ≠ some .writeback)
    (hx : phase ≠ some .execute) : (u.afterPhase job batch (nextPhase phase)).Holds
      (if phase = some .decode then u.memory else memory) := by
  constructor
  · rw [width_afterPhase]
    exact lanes_afterPhase hl hp hx
  · rw [width_afterPhase]
    refine ⟨hb, ?_, nofun⟩
    intro he
    exact hx (nextPhase_eq_writeback_iff.1 (Option.some.inj he))

theorem holds_turnOver {u : VectorUnit} {memory : Vector Word 128} {job : Job} {batch : Batch}
    {phase : Option Stage} (hl : u.lanes = job.laneRow memory u.width batch.number phase)
    (hb : batch.total = job.batches u.width) : (u.turnOver job batch).Holds memory := by
  have hidle : (u.turnOver job batch).lanesIdle := lanesIdle_turnOver hl
  have hwork := u.work_turnOver job batch
  cases hn : batch.next? with
  | none =>
      rw [hn] at hwork
      exact holds_of_lanesIdle hidle (congrArg Work.active? hwork) memory
  | some next =>
      obtain ⟨hnumber, htotal⟩ := Batch.next?_eq_some_iff.1 hn
      rw [hn, Option.elim_some] at hwork
      constructor
      · rw [hwork, Work.lanes, Job.laneRow_none]
        exact hidle
      · rw [hwork, width_turnOver]
        exact ⟨htotal.trans hb, nofun, fun _ => hnumber ▸ Nat.succ_pos batch.number⟩

theorem Steps.holds {u v : VectorUnit} {memory : Vector Word 128} (hs : Steps u v)
    (h : u.Holds memory) : v.Holds (u.fetchedFrom memory) := by
  have hl := h.lanes_eq
  have hp := h.proper
  cases hs with
  | rest hw => simpa only [fetchedFrom, hw] using h
  | @skip job hw hb =>
      refine holds_of_lanesIdle ?_ rfl _
      exact u.lanesIdle_pickUp job
  | @pick job batch hw hb =>
      have hrow : (u.begin job batch).lanes =
          job.laneRow memory (u.begin job batch).width batch.number none := by
        rw [Job.laneRow_none]
        exact u.lanesIdle_begin job batch
      have htotal : batch.total = job.batches (u.begin job batch).width := by
        rw [width_begin]
        exact (Batch.first?_eq_some_iff.1 hb).2
      rw [fetchedFrom, hw]
      exact holds_afterPhase hrow htotal nofun nofun
  | @phase job batch phase hw hx =>
      rw [hw] at hl hp
      have hm : u.fetchedFrom memory = if phase = some .decode then u.memory else memory := by
        rw [fetchedFrom, hw]
        rcases phase with _ | (_ | _ | _ | _) <;> rfl
      rw [hm]
      exact holds_afterPhase hl hp.1 hp.2.1 hx
  | @turnOver job batch hw =>
      rw [hw] at hl hp
      rw [fetchedFrom, hw]
      exact holds_turnOver hl hp.1

theorem holds_drain {u : VectorUnit} {memory : Vector Word 128} (h : u.Holds memory) :
    ∃ fetched, u.drain.unit.Holds fetched := by
  induction u using step_induction generalizing memory with
  | idle u hi =>
      rw [unit_drain_of_idle hi]
      exact ⟨memory, h⟩
  | busy u hb ih =>
      rw [unit_drain_step hb]
      exact ih (u.steps_step.holds h)

theorem holds_serve_of_passive {u : VectorUnit} {memory : Vector Word 128} (h : u.Holds memory)
    {r : Request} (hr : r.passive = true) : (u.serve r).Holds memory := by
  cases r with
  | start job =>
      rw [serve_start]
      split
      · rename_i hi
        have hl := h.lanes_eq
        rw [hi] at hl
        exact ⟨hl, trivial⟩
      · exact h
  | step => cases hr
  | drain => cases hr
  | reset => cases hr
  | _ => exact ⟨h.lanes_eq, h.proper⟩

theorem holds_new (n : Nat) (memory : Vector Word 128) : (new n).Holds memory := by
  refine holds_of_lanesIdle ?_ rfl memory
  rw [lanesIdle, width_new]
  rfl

theorem holds_serve {u : VectorUnit} {memory : Vector Word 128} (h : u.Holds memory)
    (r : Request) : ∃ fetched, (u.serve r).Holds fetched := by
  cases r with
  | step => exact ⟨_, u.steps_step.holds h⟩
  | drain => exact holds_drain h
  | reset =>
      have hl : u.reset.1.lanesIdle := by
        rw [reset_eq]
        exact (holds_new u.width memory).lanes_eq
      exact ⟨memory, holds_of_lanesIdle hl rfl memory⟩
  | _ => exact ⟨memory, holds_serve_of_passive h rfl⟩

theorem holds_after (n : Nat) (requests : List Request) :
    ((new n).after requests).width = max n 1 ∧
      ∃ memory, ((new n).after requests).Holds memory := by
  induction requests using List.reverseRecOn with
  | nil => exact ⟨width_new n, (new n).memory, holds_new n _⟩
  | append_singleton requests r ih =>
      obtain ⟨hw, memory, h⟩ := ih
      rw [after_append, after_cons, after_nil]
      exact ⟨(width_serve _ r).trans hw, holds_serve h r⟩

namespace Snapshot

def engaged (s : Snapshot) : Nat :=
  match s.active, s.batch, s.phase with
  | some job, some (batch, _), some _ => min s.lanes.length (job.len - batch * s.lanes.length)
  | _, _, _ => 0

structure Consistent (s : Snapshot) (n : Nat) : Prop where
  memory_size : s.memory.toList.length = 128
  lane_count : s.lanes.length = n
  busy_iff : s.busy = true ↔ s.pending.isSome ∨ s.active.isSome
  exclusive : s.pending = none ∨ s.active = none
  progress : ∀ job, s.active = some job → ∃ batch, s.batch = some (batch, job.len ⌈/⌉ n) ∧
    batch < job.len ⌈/⌉ n ∧ s.phase ∈ [none, some .decode, some .fetch, some .execute] ∧
    (s.phase = none → 0 < batch) ∧ batch * n < job.len ∧ 1 ≤ min n (job.len - batch * n)
  engaged_le : s.engaged ≤ n
  engaged_lanes : ∀ i l, s.lanes[i]? = some l → i < s.engaged →
    l.busy = true ∧ l.opcode = s.active.map Job.op
  idle_lanes : ∀ i l, s.lanes[i]? = some l → s.engaged ≤ i → l = .idle

end Snapshot

theorem engaged_snapshot (u : VectorUnit) : u.snapshot.engaged = u.work.engaged u.width := by
  simp only [Snapshot.engaged, snapshot]
  cases u.work with
  | running job batch phase => cases phase <;> rfl
  | _ => rfl

theorem Holds.progress {u : VectorUnit} {memory : Vector Word 128} (h : u.Holds memory) {job : Job}
    (hj : u.work.active? = some job) :
    ∃ batch, u.work.progress? = some (batch, job.len ⌈/⌉ u.width) ∧
      batch < job.len ⌈/⌉ u.width ∧
      u.work.phase? ∈ [none, some .decode, some .fetch, some .execute] ∧
      (u.work.phase? = none → 0 < batch) ∧ batch * u.width < job.len ∧
      1 ≤ min u.width (job.len - batch * u.width) := by
  obtain ⟨batch, phase, hw⟩ := Work.eq_running_of_active hj
  have hp := h.proper
  rw [hw] at hp ⊢
  obtain ⟨htotal, hwb, hfirst⟩ := hp
  have hceil : job.batches u.width = job.len ⌈/⌉ u.width := batchCount_eq_ceilDiv u.width_pos
  have hb : batch.number < job.batches u.width := htotal ▸ batch.inRange
  have hlt : batch.number * u.width < job.len := (lt_batchCount_iff u.width_pos).1 hb
  rw [hceil] at hb htotal
  refine ⟨batch.number, ?_, hb, ?_, hfirst, hlt, ?_⟩
  · simp only [Work.progress?, htotal]
  · rcases phase with _ | (_ | _ | _ | _) <;> simp [Work.phase?] at hwb ⊢
  · exact Nat.le_min.2 ⟨u.width_pos, Nat.sub_pos_of_lt hlt⟩

theorem Holds.consistent {u : VectorUnit} {memory : Vector Word 128} (h : u.Holds memory)
    (hc : u.control.Coherent u.width) : u.snapshot.Consistent u.width := by
  have hl : u.snapshot.lanes = u.work.lanes memory u.width := h.lanes_eq
  have hs := u.shows_control
  constructor
  · exact u.memory.length_toList
  · rfl
  · rw [hs.busy, hs.pending, hs.active, Option.isSome_map]
    exact hc.busy_iff
  · rw [hs.pending, hs.active, Option.map_eq_none_iff]
    exact hc.exclusive
  · exact fun job hj => h.progress hj
  · rw [engaged_snapshot]
    exact u.work.engaged_le u.width
  · intro i l hi hlt
    rw [hl] at hi
    rw [engaged_snapshot] at hlt
    exact Work.engaged_lane h.proper hi hlt
  · intro i l hi hge
    rw [hl] at hi
    rw [engaged_snapshot] at hge
    exact Work.idle_lane hi hge

theorem runs_control_new (n : Nat) (requests : List Request) :
    Control.Runs (max n 1) {} requests ((new n).after requests).control := by
  have hr := (new n).runs_control requests
  rwa [width_new] at hr

theorem every_state_is_consistent (n : Nat) (requests : List Request) :
    let u := (new n).after requests
    u.snapshot.Consistent (max n 1) ∧
    ∃ c, Control.Runs (max n 1) {} requests c ∧ c.Coherent (max n 1) ∧ u.snapshot.Shows c ∧
      ∀ d, Control.Runs (max n 1) {} requests d → d = c := by
  intro u
  have hr := runs_control_new n requests
  have hc := hr.coherent Control.coherent_idle
  obtain ⟨hwidth, memory, h⟩ := holds_after n requests
  refine ⟨?_, u.control, hr, hc, u.shows_control, fun d hd => hd.unique hr⟩
  rw [← hwidth] at hc ⊢
  exact h.consistent hc

end VectorUnit

end VectorMachine
