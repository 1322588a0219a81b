import VectorMachine.Proofs.VectorUnit.Draining

namespace VectorMachine

namespace VectorUnit

structure Outline where
  busy : Bool
  pending : Option Job
  active : Option Job
  phase : Option Stage
  batch : Option (Nat × Nat)
  atRest : Bool
  deriving DecidableEq, Repr

namespace Outline

def idle : Outline := ⟨false, none, none, none, none, true⟩

def behind (job : Job) (n batch : Nat) (stage : Stage) : Outline :=
  ⟨true, none, some job, some stage, some (batch, job.len ⌈/⌉ n), stage == .writeback⟩

end Outline

def Snapshot.outline (s : Snapshot) : Outline :=
  ⟨s.busy, s.pending, s.active, s.phase, s.batch, s.lanes.all (· == .idle)⟩

inductive Notice where
  | phase (stage : Stage) (lanes : List Nat) (state : Outline)
  | complete (op : VectorOp) (state : Outline)
  deriving DecidableEq, Repr

def Event.notice? : Event → Option Notice
  | .phase stage s lanes _ => some (.phase stage lanes s.outline)
  | .complete s op => some (.complete op s.outline)
  | .transfer .. | .reset _ => none

def Notice.elements (n : Nat) : Notice → List Nat
  | .phase .writeback lanes state =>
      lanes.map fun lane => (state.batch.elim 0 Prod.fst) * n + lane
  | _ => []

def told (u : VectorUnit) : Request → List Event
  | .step => u.step.events
  | .drain => u.drain.events.toList
  | .load _ primary src dst len => (u.loadBlock primary src dst len).2
  | .store _ primary src dst len => (u.storeBlock primary src dst len).2.2
  | .reset => u.reset.2
  | .start _ | .write .. => []

def log (u : VectorUnit) : List Request → List Event
  | [] => []
  | r :: rest => u.told r ++ (u.serve r).log rest

/-- The unit is left its job: it is not reset, and a job that comes in between is refused. -/
def LeavesJob (u : VectorUnit) : Request → Prop
  | .start other => ∃ refusal, u.start other = .error refusal
  | .reset => False
  | _ => True

def Undisturbed (u : VectorUnit) : List Request → Prop
  | [] => True
  | r :: rest => u.LeavesJob r ∧ (u.serve r).Undisturbed rest

theorem exists_refusal_iff {u : VectorUnit} {job : Job} :
    (∃ refusal, u.start job = .error refusal) ↔ u.work ≠ .idle := by
  simp only [start_eq_error_iff, exists_comm, exists_and_left, exists_eq, and_true]
  rw [ne_eq, ← Work.job?_eq_none_iff, ← ne_eq, Option.ne_none_iff_exists']

instance (u : VectorUnit) (r : Request) : Decidable (u.LeavesJob r) :=
  match r with
  | .start _ => decidable_of_iff _ exists_refusal_iff.symm
  | .reset => .isFalse id
  | .step | .drain | .write .. | .load .. | .store .. => .isTrue trivial

instance decidableUndisturbed (u : VectorUnit) : (rs : List Request) → Decidable (u.Undisturbed rs)
  | [] => .isTrue trivial
  | r :: rest =>
      haveI := decidableUndisturbed (u.serve r) rest
      inferInstanceAs (Decidable (u.LeavesJob r ∧ (u.serve r).Undisturbed rest))

end VectorUnit

namespace Job

open VectorUnit (Notice Outline)

def phaseNotice (job : Job) (n batch : Nat) (stage : Stage) : Notice :=
  .phase stage (List.range (min n (job.len - batch * n))) (.behind job n batch stage)

def batchScript (job : Job) (n batch : Nat) : List Notice :=
  [.decode, .fetch, .execute, .writeback].map (job.phaseNotice n batch)

def script (job : Job) (n : Nat) : List Notice :=
  (List.range (job.len ⌈/⌉ n)).flatMap (job.batchScript n) ++ [.complete job.op .idle]

def scriptFrom (job : Job) (n batch : Nat) : List Notice :=
  (List.range' batch (job.len ⌈/⌉ n - batch)).flatMap (job.batchScript n) ++
    [.complete job.op .idle]

variable {job : Job} {n batch : Nat}

theorem scriptFrom_zero : job.scriptFrom n 0 = job.script n := by
  rw [scriptFrom, script, Nat.sub_zero, List.range_eq_range']

theorem scriptFrom_of_lt (h : batch < job.len ⌈/⌉ n) :
    job.scriptFrom n batch = job.batchScript n batch ++ job.scriptFrom n (batch + 1) := by
  obtain ⟨k, hk⟩ := Nat.exists_eq_add_of_lt h
  have hfirst : job.len ⌈/⌉ n - batch = k + 1 := by omega
  have hrest : job.len ⌈/⌉ n - (batch + 1) = k := by omega
  rw [scriptFrom, scriptFrom, hfirst, hrest, List.range'_succ, List.flatMap_cons, List.append_assoc]

theorem scriptFrom_of_le (h : job.len ⌈/⌉ n ≤ batch) :
    job.scriptFrom n batch = [.complete job.op .idle] := by
  rw [scriptFrom, Nat.sub_eq_zero_of_le h]
  rfl

theorem elements_batchScript : (job.batchScript n batch).flatMap (Notice.elements n) =
    (List.range (job.count n batch)).map (batch * n + ·) := by
  simp [batchScript, phaseNotice, Notice.elements, Outline.behind, count]

theorem elements_batchScripts (hn : 0 < n) {k : Nat} (hk : k ≤ job.len ⌈/⌉ n) :
    ((List.range k).flatMap (job.batchScript n)).flatMap (Notice.elements n) =
      List.range (min job.len (k * n)) := by
  induction k with
  | zero => simp
  | succ k ih =>
      have hlt : k * n < job.len := (lt_batchCount_iff hn).1 (batchCount_eq_ceilDiv hn ▸ hk)
      rw [List.range_succ, List.flatMap_append, List.flatMap_append, ih (Nat.le_of_succ_le hk),
        List.flatMap_singleton, elements_batchScript, Nat.min_eq_right (Nat.le_of_lt hlt),
        min_succ_mul hlt, List.range_add]

theorem elements_script (hn : 0 < n) :
    (job.script n).flatMap (Notice.elements n) = List.range job.len := by
  have hall : min job.len (job.len ⌈/⌉ n * n) = job.len := by
    rw [← batchCount_eq_ceilDiv hn]
    exact min_batches_mul hn
  rw [script, List.flatMap_append, elements_batchScripts hn (Nat.le_refl _), hall]
  exact List.append_nil _

end Job

def Work.upcoming (n : Nat) : Work → List VectorUnit.Notice
  | .idle => []
  | .queued job => job.script n
  | .running job batch phase =>
      (job.batchScript n batch.number).drop (phasesRun phase) ++ job.scriptFrom n (batch.number + 1)

namespace VectorUnit

theorem Drain.events_finish_append (d e : Drain) (before : List Event) (hunit : d.unit = e.unit)
    (hevents : d.events.toList = before ++ e.events.toList) :
    d.finish.events.toList = before ++ e.finish.events.toList := by
  fun_induction Drain.finish d generalizing e with
  | case1 d hd =>
      rw [Drain.finish, if_pos (hunit ▸ hd)]
      exact hevents
  | case2 d hd turn ih =>
      rw [Drain.finish.eq_def e, if_neg (hunit ▸ hd)]
      refine ih _ (congrArg (fun u => u.step.unit) hunit) ?_
      simp [turn, hunit, hevents]

theorem events_drain_of_idle {u : VectorUnit} (h : u.work = .idle) :
    u.drain.events.toList = [] := by
  rw [drain_of_idle h]

theorem events_drain_step {u : VectorUnit} (h : u.work ≠ .idle) :
    u.drain.events.toList = u.step.events ++ u.step.unit.drain.events.toList := by
  rw [drain, Drain.finish, if_neg h]
  exact Drain.events_finish_append _ ⟨u.step.unit, 0, #[]⟩ u.step.events rfl (by simp)

theorem notices_announce {u : VectorUnit} (h : u.listeners.heard = true)
    (event : Snapshot → Event) :
    (u.announce event).filterMap Event.notice? = (event u.snapshot).notice?.toList := by
  rw [announce, if_pos h]
  cases hn : (event u.snapshot).notice? <;> simp [hn]

section Listeners

variable {u v : VectorUnit}

theorem listeners_afterPhase (u : VectorUnit) (job : Job) (batch : Batch) (stage : Stage) :
    (u.afterPhase job batch stage).listeners = u.listeners := by
  cases stage with
  | writeback =>
      simp only [afterPhase, runPhase, writeBatch]
      split <;> rfl
  | _ => rfl

theorem listeners_turnOver (u : VectorUnit) (job : Job) (batch : Batch) :
    (u.turnOver job batch).listeners = u.listeners := by
  have hl := u.listeners_afterPhase job batch .writeback
  simp only [turnOver]
  cases batch.next? <;> exact hl

theorem Steps.listeners_eq (hs : Steps u v) : v.listeners = u.listeners := by
  cases hs with
  | rest hw => rfl
  | skip hw hb => rfl
  | pick hw hb => exact listeners_afterPhase _ _ _ _
  | phase hw hx => exact listeners_afterPhase _ _ _ _
  | turnOver hw => exact listeners_turnOver _ _ _

theorem listeners_drain (u : VectorUnit) : u.drain.unit.listeners = u.listeners := by
  induction u using step_induction with
  | idle u hi => rw [unit_drain_of_idle hi]
  | busy u hb ih => rw [unit_drain_step hb, ih, u.steps_step.listeners_eq]

theorem listeners_serve (u : VectorUnit) (r : Request) : (u.serve r).listeners = u.listeners := by
  cases r with
  | start job =>
      rw [serve_start]
      split <;> rfl
  | step => exact u.steps_step.listeners_eq
  | drain => exact u.listeners_drain
  | _ => rfl

end Listeners

section Step

variable {u : VectorUnit} {memory : Vector Word 128} {job : Job} {batch : Batch}

theorem exists_laneRow_afterPhase {phase : Option Stage}
    (hl : u.lanes = job.laneRow memory u.width batch.number phase) (hp : phase ≠ some .writeback) :
    ∃ fetched, (u.afterPhase job batch (nextPhase phase)).lanes =
      job.laneRow fetched u.width batch.number (some (nextPhase phase)) := by
  by_cases hx : phase = some .execute
  · subst hx
    have hidle := lanesIdle_turnOver hl
    rw [lanesIdle, width_turnOver, lanes_turnOver] at hidle
    exact ⟨memory, hidle.trans (job.laneRow_none memory u.width batch.number).symm⟩
  · exact ⟨_, lanes_afterPhase hl hp hx⟩

theorem atRest_of_lanesIdle {lanes : List Lane} {n : Nat} (h : lanes = List.replicate n .idle) :
    lanes.all (· == .idle) = true := by
  rw [h, List.all_eq_true]
  intro l hl
  rw [beq_iff_eq]
  exact (List.mem_replicate.1 hl).2

theorem atRest_laneRow {width : Nat} (hc : 0 < job.count width batch.number) (stage : Stage) :
    (job.laneRow memory width batch.number (some stage)).all (· == .idle) =
      (stage == .writeback) := by
  by_cases hs : stage = .writeback
  · subst hs
    exact atRest_of_lanesIdle (job.laneRow_none memory width batch.number)
  · have hlen : 0 < (job.laneRow memory width batch.number (some stage)).length := by
      rw [Job.laneRow, Lane.length_onFirst, List.length_replicate]
      exact Nat.lt_of_lt_of_le hc (job.count_le width batch.number)
    have hlane := Job.lane_of_laneRow (List.getElem?_eq_getElem hlen)
    rw [if_pos hc] at hlane
    have hbusy : (job.laneAfter memory (batch.number * width + 0) (some stage)).busy = true :=
      (Job.laneAfter_engaged hs).1
    rw [← hlane] at hbusy
    rw [beq_eq_false_iff_ne.2 hs, List.all_eq_false]
    refine ⟨_, List.getElem_mem hlen, ?_⟩
    rw [beq_iff_eq]
    intro hidle
    rw [hidle] at hbusy
    cases hbusy

theorem outline_afterPhase {phase : Option Stage}
    (hl : u.lanes = job.laneRow memory u.width batch.number phase)
    (hb : batch.total = job.batches u.width) (hp : phase ≠ some .writeback) :
    (u.afterPhase job batch (nextPhase phase)).snapshot.outline =
      .behind job u.width batch.number (nextPhase phase) := by
  obtain ⟨fetched, hlanes⟩ := exists_laneRow_afterPhase hl hp
  have hlt : batch.number < job.batches u.width := hb ▸ batch.inRange
  have hc : 0 < job.count u.width batch.number :=
    Nat.lt_min.2 ⟨u.width_pos, Nat.sub_pos_of_lt ((lt_batchCount_iff u.width_pos).1 hlt)⟩
  have htotal : batch.total = job.len ⌈/⌉ u.width := hb.trans (batchCount_eq_ceilDiv u.width_pos)
  have hwork : (u.afterPhase job batch (nextPhase phase)).work =
      .running job batch (some (nextPhase phase)) := rfl
  simp only [snapshot, Snapshot.outline, Outline.behind, hwork, hlanes, atRest_laneRow hc,
    ← htotal]
  rfl

theorem notices_afterPhase {phase : Option Stage} (hheard : u.listeners.heard = true)
    (hl : u.lanes = job.laneRow memory u.width batch.number phase)
    (hb : batch.total = job.batches u.width) (hp : phase ≠ some .writeback) (m : MicroOp) :
    ((u.afterPhase job batch (nextPhase phase)).announce fun state =>
        .phase (nextPhase phase) state (List.range (job.count u.width batch.number)) m).filterMap
      Event.notice? = [job.phaseNotice u.width batch.number (nextPhase phase)] := by
  have hafter : (u.afterPhase job batch (nextPhase phase)).listeners.heard = true := by
    rw [listeners_afterPhase]
    exact hheard
  rw [notices_announce hafter]
  simp only [Event.notice?, outline_afterPhase hl hb hp]
  rfl

theorem notices_complete {v : VectorUnit} {n : Nat} (hheard : v.listeners.heard = true)
    (hl : v.lanes = List.replicate n .idle) (op : VectorOp) :
    (v.complete op).events.filterMap Event.notice? = [.complete op .idle] := by
  simp only [complete]
  rw [notices_announce (by exact hheard)]
  simp only [Event.notice?, snapshot, Snapshot.outline, atRest_of_lanesIdle hl]
  rfl

theorem drop_batchScript (job : Job) (n batch : Nat) (phase : Option Stage) :
    (job.batchScript n batch).drop (phasesRun phase) =
      job.phaseNotice n batch (nextPhase phase) ::
        (job.batchScript n batch).drop (phasesRun phase + 1) := by
  rcases phase with _ | (_ | _ | _ | _) <;> rfl

theorem notices_advance {phase : Option Stage} (hheard : u.listeners.heard = true)
    (hl : u.lanes = job.laneRow memory u.width batch.number phase)
    (hb : batch.total = job.batches u.width) (hp : phase ≠ some .writeback) :
    (u.advance job batch phase).events.filterMap Event.notice? ++
        (u.advance job batch phase).unit.work.upcoming u.width =
      (Work.running job batch phase).upcoming u.width := by
  have hafter := notices_afterPhase hheard hl hb hp
  rw [Work.upcoming, drop_batchScript]
  by_cases hx : phase = some .execute
  · subst hx
    have htotal : batch.total = job.len ⌈/⌉ u.width := hb.trans (batchCount_eq_ceilDiv u.width_pos)
    have hdone :
        (job.batchScript u.width batch.number).drop (phasesRun (some .execute) + 1) = [] := rfl
    have hidle := lanesIdle_turnOver hl
    rw [lanesIdle, width_turnOver, lanes_turnOver] at hidle
    rw [hdone, List.cons_append, List.nil_append]
    simp only [advance, nextPhase, if_true] at hafter ⊢
    cases hn : batch.next? with
    | some next =>
        obtain ⟨hnumber, hnext⟩ := Batch.next?_eq_some_iff.1 hn
        have hlt : batch.number + 1 < job.len ⌈/⌉ u.width := by
          rw [← htotal, ← hnext, ← hnumber]
          exact next.inRange
        rw [hafter, Job.scriptFrom_of_lt hlt, ← hnumber]
        rfl
    | none =>
        have hlast : job.len ⌈/⌉ u.width ≤ batch.number + 1 :=
          Nat.le_of_eq (htotal.symm.trans (Batch.next?_eq_none_iff.1 hn).symm)
        have hlisteners := congrArg Listeners.heard (u.listeners_afterPhase job batch .writeback)
        have hend := notices_complete (v := (u.afterPhase job batch .writeback).countBatch)
          (hlisteners.trans hheard) hidle job.op
        rw [List.filterMap_append, hafter, hend, Job.scriptFrom_of_le hlast]
        rfl
  · have hrun := phasesRun_nextPhase hx hp
    have hne := mt nextPhase_eq_writeback_iff.1 hx
    have hwork : (u.afterPhase job batch (nextPhase phase)).work =
        .running job batch (some (nextPhase phase)) := rfl
    simp only [advance, if_neg hne]
    rw [hafter, hwork, Work.upcoming, hrun]
    rfl

theorem notices_step (hheard : u.listeners.heard = true) (h : u.Holds memory) :
    u.step.events.filterMap Event.notice? ++ u.step.unit.work.upcoming u.width =
      u.work.upcoming u.width := by
  have hl := h.lanes_eq
  have hp := h.proper
  cases hwork : u.work with
  | idle =>
      have hs : u.step = ⟨.idle, u, []⟩ := by simp only [step, hwork]
      rw [hs, hwork]
      rfl
  | queued job =>
      cases hb : Batch.first? (job.batches u.width) with
      | none =>
          have hempty := Batch.first?_eq_none_iff.1 hb
          have hlanes : (u.pickUp job).lanes = List.replicate u.width .idle := u.lanes_clearLanes
          have hnone : job.len ⌈/⌉ u.width = 0 :=
            (batchCount_eq_ceilDiv u.width_pos).symm.trans hempty
          rw [step_of_empty hwork hempty, notices_complete (by exact hheard) hlanes,
            Work.upcoming, Job.script, hnone]
          rfl
      | some batch =>
          obtain ⟨hnumber, htotal⟩ := Batch.first?_eq_some_iff.1 hb
          have hwidth := u.width_begin job batch
          have hrow : (u.begin job batch).lanes =
              job.laneRow memory (u.begin job batch).width batch.number none := by
            rw [Job.laneRow_none]
            exact u.lanesIdle_begin job batch
          have hpick := notices_advance (u := u.begin job batch) hheard hrow
            (hwidth ▸ htotal) (Option.some_ne_none _).symm
          have hlt : 0 < job.len ⌈/⌉ u.width := by
            have hceil : job.batches u.width = job.len ⌈/⌉ u.width :=
              batchCount_eq_ceilDiv u.width_pos
            rw [← hceil, ← htotal, ← hnumber]
            exact batch.inRange
          rw [hwidth] at hpick
          rw [step_queued hwork hb, hpick, Work.upcoming, Work.upcoming, hnumber,
            ← Job.scriptFrom_zero, Job.scriptFrom_of_lt hlt]
          rfl
  | running job batch phase =>
      rw [hwork] at hl hp
      rw [step_running hwork]
      exact notices_advance hheard hl hp.1 hp.2.1

end Step

section Log

variable {u : VectorUnit} {memory : Vector Word 128}

theorem notices_drain (hheard : u.listeners.heard = true) (h : u.Holds memory) :
    u.drain.events.toList.filterMap Event.notice? = u.work.upcoming u.width := by
  induction u using step_induction generalizing memory with
  | idle u hi =>
      rw [events_drain_of_idle hi, hi]
      rfl
  | busy u hb ih =>
      have hnext := ih (u.steps_step.listeners_eq ▸ hheard) (u.steps_step.holds h)
      rw [u.steps_step.width_eq] at hnext
      rw [events_drain_step hb, List.filterMap_append, hnext, notices_step hheard h]

theorem notices_finishTransfer (hheard : u.listeners.heard = true) (direction : Direction)
    (words : Nat) : (u.finishTransfer direction words).2.filterMap Event.notice? = [] := by
  simp only [finishTransfer]
  rw [notices_announce (by exact hheard)]
  rfl

theorem notices_told (hheard : u.listeners.heard = true) (h : u.Holds memory) {r : Request}
    (hr : u.LeavesJob r) :
    (u.told r).filterMap Event.notice? ++ (u.serve r).work.upcoming u.width =
      u.work.upcoming u.width := by
  cases r with
  | start other =>
      obtain ⟨refusal, hrefused⟩ := hr
      have hs : u.serve (.start other) = u := by
        simp only [serve, hrefused]
        rfl
      rw [hs]
      rfl
  | step => exact notices_step hheard h
  | drain =>
      have hidle : (u.serve .drain).work = .idle := u.work_drain
      rw [hidle]
      exact (List.append_nil _).trans (notices_drain hheard h)
  | write a w => rfl
  | load size primary src dst len =>
      have hnone := notices_finishTransfer
        (u := { u with memory := copyIn u.memory primary src dst len }) hheard .toUnit len
      exact congrArg (· ++ _) hnone
  | store size primary src dst len =>
      exact congrArg (· ++ _) (notices_finishTransfer hheard .toPrimary len)
  | reset => exact hr.elim

theorem notices_log (hheard : u.listeners.heard = true) (h : u.Holds memory)
    {requests : List Request} (hr : u.Undisturbed requests) :
    (u.log requests).filterMap Event.notice? ++ (u.after requests).work.upcoming u.width =
      u.work.upcoming u.width := by
  induction requests generalizing u memory with
  | nil => rfl
  | cons r rest ih =>
      obtain ⟨hfirst, hrest⟩ := hr
      obtain ⟨fetched, hnext⟩ := holds_serve h r
      have htail := ih (u.listeners_serve r ▸ hheard) hnext hrest
      rw [width_serve] at htail
      rw [log, List.filterMap_append, List.append_assoc, after_cons, htail,
        notices_told hheard h hfirst]

end Log

theorem events_follow_the_script (n : Nat) (listeners : Listeners) (history : List Request)
    (job : Job) (requests : List Request) {started : VectorUnit}
    (hheard : listeners.heard = true)
    (hstart : { (new n).after history with listeners := listeners }.start job = .ok started)
    (hcourse : started.Undisturbed requests)
    (hdone : (started.after requests).snapshot.busy = false) :
    let notices := (started.log requests).filterMap Event.notice?
    notices = job.script (max n 1) ∧
    notices.flatMap (Notice.elements (max n 1)) = List.range job.len ∧
    (job.len = 0 → notices = [.complete job.op .idle]) ∧
    ∀ u : VectorUnit, u.snapshot.busy = false → u.step = ⟨.idle, u, []⟩ := by
  intro notices
  obtain ⟨hwidth, memory, h⟩ := holds_after n history
  have hn : 0 < max n 1 := hwidth ▸ width_pos _
  have hidle (u : VectorUnit) (hu : u.snapshot.busy = false) : u.work = .idle := by
    rw [← Work.job?_eq_none_iff, ← Option.not_isSome_iff_eq_none]
    exact Bool.eq_false_iff.1 hu
  obtain ⟨hwork, rfl⟩ := start_eq_ok_iff.1 hstart
  have hl := h.lanes_eq
  rw [show ((new n).after history).work = .idle from hwork] at hl
  have hqueued : VectorUnit.Holds
      { (new n).after history with listeners := listeners, work := .queued job } memory :=
    ⟨hl, trivial⟩
  have hscript : notices = job.script (max n 1) := by
    have hlog := notices_log hheard hqueued hcourse
    rw [hidle _ hdone] at hlog
    rw [← hwidth]
    exact (List.append_nil _).symm.trans hlog
  refine ⟨hscript, ?_, ?_, ?_⟩
  · rw [hscript]
    exact Job.elements_script hn
  · intro hlen
    rw [hscript, Job.script, hlen, zero_ceilDiv]
    rfl
  · intro u hu
    simp only [step, hidle u hu]

def totalling : Job := ⟨.sum, Cell.ofNat 126, Cell.ofNat 0, 3, none⟩

def watched : VectorUnit := { new 2 with listeners := ⟨[⟨0, 7⟩], 1⟩ }

def nudges : List Request :=
  [.step, .write (Cell.ofNat 127) 9, .start ⟨.copy, Cell.ofNat 0, Cell.ofNat 1, 2, none⟩, .step,
    .load 2 #v[5, 6] (Cell.ofNat 0) (Cell.ofNat 0) 2, .step, .step, .drain]

theorem events_follow_the_script_nudged :
    let started := { watched with work := .queued totalling }
    started.Undisturbed nudges ∧ (started.after nudges).snapshot.busy = false ∧
      (started.log nudges).length = 10 ∧
      (started.log nudges).filterMap Event.notice? = totalling.script 2 ∧
      (totalling.script 2).flatMap (Notice.elements 2) = [0, 1, 2] := by
  intro started
  have hstart :
      { (new 2).after [] with listeners := ⟨[⟨0, 7⟩], 1⟩ }.start totalling = .ok started :=
    start_eq_ok_iff.2 ⟨rfl, rfl⟩
  have hcourse : started.Undisturbed nudges := by decide +kernel
  have hdone : (started.after nudges).snapshot.busy = false := by decide +kernel
  have hlength : (started.log nudges).length = 10 := by decide +kernel
  obtain ⟨hscript, helements, -⟩ :=
    events_follow_the_script 2 _ [] totalling nudges rfl hstart hcourse hdone
  exact ⟨hcourse, hdone, hlength, hscript, hscript ▸ helements⟩

end VectorUnit

end VectorMachine
