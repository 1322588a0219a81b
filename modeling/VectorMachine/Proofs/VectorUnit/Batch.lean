import VectorMachine.VectorUnit.Step

namespace VectorMachine

theorem lt_batchCount_iff {len lanes k : Nat} (h : 0 < lanes) :
    k < batchCount len lanes ↔ k * lanes < len := by
  have hle : k + 1 ≤ batchCount len lanes ↔ (k + 1) * lanes ≤ len + lanes - 1 :=
    Nat.le_div_iff_mul_le h
  rw [← Nat.succ_le_iff, hle, Nat.succ_mul]
  omega

namespace Lane

theorem onFirst_onFirst (count : Nat) (f g : Nat → Lane → Lane) (lanes : List Lane) :
    onFirst count f (onFirst count g lanes) = onFirst count (fun i l => f i (g i l)) lanes := by
  apply List.ext_getElem
  · simp [onFirst]
  · intro i h₁ h₂
    simp only [onFirst, List.getElem_mapIdx]
    split <;> rfl

theorem onFirst_idle (count width : Nat) :
    onFirst count (fun _ _ => idle) (List.replicate width idle) = List.replicate width idle := by
  apply List.ext_getElem
  · simp [onFirst]
  · intro i h₁ h₂
    simp [onFirst]

theorem output_onFirst {count : Nat} {lanes : List Lane} (h : count ≤ lanes.length)
    {f : Nat → Lane → Lane} {w : Nat → Word} (hf : ∀ i l, (f i l).output = w i) :
    ((onFirst count f lanes).take count).map output = (List.range count).map w := by
  apply List.ext_getElem
  · simp [onFirst, h]
  · intro i h₁ h₂
    have hi : i < count := by simpa using h₂
    simp [onFirst, hi, hf]

end Lane

namespace Job

def word (j : Job) (memory : Vector Word 128) (i : Nat) : Word :=
  j.op.element (memory.get (j.src.offset i))
    (if j.op.readsDestination then memory.get (j.dst.offset i) else 0) j.scalar

def lane (j : Job) (memory : Vector Word 128) (i : Nat) (l : Lane) : Lane :=
  ((l.decode j.op).fetch (memory.get (j.src.offset i))
    (if j.op.readsDestination then memory.get (j.dst.offset i) else 0)).execute j.op j.scalar

theorem output_lane (j : Job) (memory : Vector Word 128) (i : Nat) (l : Lane) :
    (j.lane memory i l).output = j.word memory i := rfl

def words (j : Job) (memory : Vector Word 128) (base count : Nat) : List Word :=
  (List.range' base count).map (j.word memory)

@[simp]
theorem length_words (j : Job) (memory : Vector Word 128) (base count : Nat) :
    (j.words memory base count).length = count := by
  simp [words]

theorem words_append (j : Job) (memory : Vector Word 128) (base m n : Nat) :
    j.words memory base m ++ j.words memory (base + m) n = j.words memory base (m + n) := by
  simp [words, ← List.map_append, List.range'_append_1]

theorem words_succ (j : Job) (memory : Vector Word 128) (n : Nat) :
    j.words memory 0 (n + 1) = j.words memory 0 n ++ [j.word memory n] := by
  simp [words, List.range'_1_concat]

theorem words_congr (j : Job) {m n : Vector Word 128} {base count : Nat}
    (h : ∀ i, base ≤ i → i < base + count → j.word m i = j.word n i) :
    j.words m base count = j.words n base count := by
  apply List.map_congr_left
  intro i hi
  obtain ⟨hl, hu⟩ := List.mem_range'_1.1 hi
  exact h i hl hu

theorem count_le (j : Job) (width batch : Nat) : j.count width batch ≤ width :=
  Nat.min_le_left _ _

theorem min_succ_mul {j : Job} {width batch : Nat} (h : batch * width < j.len) :
    min j.len ((batch + 1) * width) = batch * width + j.count width batch := by
  rw [Nat.succ_mul, count]
  omega

theorem min_batches_mul {j : Job} {width : Nat} (h : 0 < width) :
    min j.len (j.batches width * width) = j.len := by
  have hn : ¬ j.batches width * width < j.len :=
    fun hlt => Nat.lt_irrefl _ ((lt_batchCount_iff h).2 hlt)
  omega

end Job

namespace VectorUnit

def lanesIdle (u : VectorUnit) : Prop :=
  u.lanes = List.replicate u.width .idle

def afterBatch (u : VectorUnit) (job : Job) (batch : Nat) : VectorUnit :=
  let base := batch * u.width
  let words := job.words u.memory base (job.count u.width batch)
  { u with
    memory := if job.op.reduction then u.memory else storeFrom u.memory job.dst base words
    result := if job.op.reduction then foldFrom job.op u.result base words else u.result
    counters := { u.counters with
      phases := u.counters.phases + 4
      batches := u.counters.batches + 1 } }

@[simp]
theorem width_afterBatch (u : VectorUnit) (job : Job) (batch : Nat) :
    (u.afterBatch job batch).width = u.width := rfl

def executed (u : VectorUnit) (job : Job) (batch : Batch) : VectorUnit :=
  ((u.afterPhase job batch .decode).afterPhase job batch .fetch).afterPhase job batch .execute

theorem lanes_executed (u : VectorUnit) (job : Job) (batch : Batch) :
    (u.executed job batch).lanes =
      Lane.onFirst (job.count u.width batch.number)
        (fun i => job.lane u.memory (batch.number * u.width + i)) u.lanes := by
  simp only [executed, afterPhase, runPhase, decodeBatch, fetchBatch, executeBatch, onLanes, width,
    Lane.length_onFirst]
  rw [Lane.onFirst_onFirst, Lane.onFirst_onFirst]
  rfl

@[simp]
theorem width_executed (u : VectorUnit) (job : Job) (batch : Batch) :
    (u.executed job batch).width = u.width := by
  rw [width, lanes_executed, Lane.length_onFirst]
  rfl

theorem outputs_executed (u : VectorUnit) (job : Job) (batch : Batch) :
    (u.executed job batch).outputs (job.count u.width batch.number) =
      job.words u.memory (batch.number * u.width) (job.count u.width batch.number) := by
  have hc : job.count u.width batch.number ≤ u.lanes.length := job.count_le _ _
  have ho (i : Nat) (l : Lane) := job.output_lane u.memory (batch.number * u.width + i) l
  rw [outputs, lanes_executed, Lane.output_onFirst hc ho, Job.words, List.range'_eq_map_range,
    List.map_map]
  rfl

theorem afterPhase_executed {u : VectorUnit} (h : u.lanesIdle) (job : Job) (batch : Batch)
    (w : Work) : { ((u.executed job batch).afterPhase job batch .writeback).countBatch with
      work := w } = { u.afterBatch job batch.number with work := w } := by
  have hl : Lane.onFirst (job.count u.width batch.number) (fun _ => Lane.clear)
      (u.executed job batch).lanes = u.lanes := by
    rw [lanes_executed, Lane.onFirst_onFirst, h]
    exact Lane.onFirst_idle _ _
  simp only [afterPhase, runPhase, writeBatch, width_executed, outputs_executed, onLanes, hl,
    afterBatch]
  by_cases hr : job.op.reduction = true
  · simp only [hr, if_true]
    rfl
  · simp only [hr]
    rfl

theorem Drain.unit_finish_congr (d e : Drain) (h : d.unit = e.unit) :
    d.finish.unit = e.finish.unit := by
  fun_induction Drain.finish d generalizing e with
  | case1 d hd =>
      rw [Drain.finish, if_pos (h ▸ hd)]
      exact h
  | case2 d hd turn ih =>
      rw [Drain.finish.eq_def e, if_neg (h ▸ hd)]
      refine ih _ ?_
      rw [← h]

theorem unit_drain_of_idle {u : VectorUnit} (h : u.work = .idle) : u.drain.unit = u := by
  rw [drain, Drain.finish, if_pos h]

theorem unit_drain_step {u : VectorUnit} (h : u.work ≠ .idle) :
    u.drain.unit = u.step.unit.drain.unit := by
  rw [drain, Drain.finish, if_neg h]
  exact Drain.unit_finish_congr _ _ rfl

theorem step_of_empty {u : VectorUnit} {job : Job} (h : u.work = .queued job)
    (hb : job.batches u.width = 0) : u.step = (u.pickUp job).complete job.op := by
  simp only [step, h, Batch.first?_eq_none_iff.2 hb]

theorem step_queued {u : VectorUnit} {job : Job} {batch : Batch} (h : u.work = .queued job)
    (hb : Batch.first? (job.batches u.width) = some batch) :
    u.step = (u.begin job batch).advance job batch none := by
  simp only [step, h, hb]

theorem step_running {u : VectorUnit} {job : Job} {batch : Batch} {phase : Option Stage}
    (h : u.work = .running job batch phase) : u.step = u.advance job batch phase := by
  simp only [step, h]

theorem unit_advance {u : VectorUnit} {job : Job} {batch : Batch} {phase : Option Stage}
    (h : nextPhase phase ≠ .writeback) :
    (u.advance job batch phase).unit = u.afterPhase job batch (nextPhase phase) := by
  simp only [advance, if_neg h]

section Drain

variable {u : VectorUnit} {job : Job} {batch : Batch}

theorem unit_drain_executed (h : u.work = .running job batch none) :
    u.drain.unit = (u.executed job batch).drain.unit := by
  have step_to {v : VectorUnit} {phase : Option Stage} (hv : v.work = .running job batch phase)
      (hp : nextPhase phase ≠ .writeback) :
      v.drain.unit = (v.afterPhase job batch (nextPhase phase)).drain.unit := by
    rw [unit_drain_step (by rw [hv]; exact Work.noConfusion), step_running hv, unit_advance hp]
  rw [step_to h (by decide), step_to rfl (by decide), step_to rfl (by decide)]
  rfl

theorem unit_drain_writeback (h : u.work = .running job batch none) :
    u.drain.unit = ((u.executed job batch).advance job batch (some .execute)).unit.drain.unit := by
  have hw : (u.executed job batch).work = .running job batch (some .execute) := rfl
  rw [unit_drain_executed h, unit_drain_step (by rw [hw]; exact Work.noConfusion), step_running hw]

theorem unit_drain_next (hl : u.lanesIdle) (h : u.work = .running job batch none) {next : Batch}
    (hb : batch.next? = some next) : u.drain.unit =
      { u.afterBatch job batch.number with work := .running job next none }.drain.unit := by
  rw [unit_drain_writeback h, ← afterPhase_executed hl]
  simp only [advance, nextPhase, if_true, hb]

theorem unit_drain_last (hl : u.lanesIdle) (h : u.work = .running job batch none)
    (hb : batch.next? = none) :
    u.drain.unit = ((u.afterBatch job batch.number).complete job.op).unit := by
  have hdone :=
    congrArg (fun v => (complete v job.op).unit) (afterPhase_executed hl job batch .idle)
  rw [unit_drain_writeback h]
  simp only [advance, nextPhase, if_true, hb]
  exact (unit_drain_of_idle rfl).trans hdone

end Drain

def runBatches (u : VectorUnit) (job : Job) (first count : Nat) : VectorUnit :=
  (List.range' first count).foldl (fun v batch => v.afterBatch job batch) u

theorem runBatches_succ (u : VectorUnit) (job : Job) (first count : Nat) :
    u.runBatches job first (count + 1) =
      (u.runBatches job first count).afterBatch job (first + count) := by
  simp [runBatches, List.range'_1_concat]

@[simp]
theorem width_runBatches (u : VectorUnit) (job : Job) (first count : Nat) :
    (u.runBatches job first count).width = u.width := by
  induction count with
  | zero => rfl
  | succ count ih => rw [runBatches_succ, width_afterBatch, ih]

theorem runBatches_work (u : VectorUnit) (w : Work) (job : Job) (first count : Nat) :
    { u with work := w }.runBatches job first count =
      { u.runBatches job first count with work := w } := by
  induction count with
  | zero => rfl
  | succ count ih =>
      rw [runBatches_succ, runBatches_succ, ih]
      rfl

theorem unit_drain_running {u : VectorUnit} {job : Job} {batch : Batch} {count : Nat}
    (hl : u.lanesIdle) (h : u.work = .running job batch none)
    (hc : batch.number + (count + 1) = batch.total) :
    u.drain.unit = ((u.runBatches job batch.number (count + 1)).complete job.op).unit := by
  induction count generalizing u batch with
  | zero =>
      rw [unit_drain_last hl h (Batch.next?_eq_none_iff.2 hc)]
      rfl
  | succ count ih =>
      have hr : u.runBatches job batch.number (count + 1 + 1) =
          (u.afterBatch job batch.number).runBatches job (batch.number + 1) (count + 1) := rfl
      cases hb : batch.next? with
      | none =>
          have hlast := Batch.next?_eq_none_iff.1 hb
          omega
      | some next =>
          obtain ⟨hnumber, htotal⟩ := Batch.next?_eq_some_iff.1 hb
          have hrest := @ih { u.afterBatch job batch.number with work := .running job next none }
            next hl rfl (by omega)
          rw [unit_drain_next hl h hb, hrest, hr, runBatches_work, hnumber]
          rfl

theorem start_of_idle {u : VectorUnit} (h : u.work = .idle) (job : Job) :
    u.start job = .ok { u with work := .queued job } := by
  rw [start_eq, h]
  rfl

theorem start_eq_ok_iff {u started : VectorUnit} {job : Job} :
    u.start job = .ok started ↔ u.work = .idle ∧ started = { u with work := .queued job } := by
  rw [start_eq]
  cases u.work with
  | idle => simp [Work.job?, eq_comm]
  | _ => simp [Work.job?]

theorem lanesIdle_pickUp (u : VectorUnit) (job : Job) : (u.pickUp job).lanesIdle := by
  rw [lanesIdle, width_pickUp]
  exact u.lanes_clearLanes

theorem lanesIdle_begin (u : VectorUnit) (job : Job) (batch : Batch) :
    (u.begin job batch).lanesIdle :=
  u.lanesIdle_pickUp job

theorem drain_start {u started : VectorUnit} {job : Job} (h : u.start job = .ok started) :
    started.drain.unit =
      (((u.pickUp job).runBatches job 0 (job.batches u.width)).complete job.op).unit := by
  have hs : started = { u with work := .queued job } := (start_eq_ok_iff.1 h).2
  have hw : started.work = .queued job := by rw [hs]
  have hbusy : started.work ≠ .idle := hw ▸ Work.noConfusion
  have hwidth : started.width = u.width := by rw [hs]; rfl
  rw [unit_drain_step hbusy]
  cases hb : Batch.first? (job.batches started.width) with
  | none =>
      have hnone := Batch.first?_eq_none_iff.1 hb
      rw [step_of_empty hw hnone, ← hwidth, hnone, hs]
      exact unit_drain_of_idle rfl
  | some batch =>
      obtain ⟨hnumber, htotal⟩ := Batch.first?_eq_some_iff.1 hb
      have hbegin : started.begin job batch = u.begin job batch := by rw [hs]; rfl
      have hrun : (u.begin job batch).work = .running job batch none := rfl
      have hrunning : (u.begin job batch).work ≠ .idle := Work.noConfusion
      obtain ⟨n, hn⟩ := Nat.exists_eq_add_of_lt batch.inRange
      have hcount : batch.number + (n + 1) = batch.total := hn.symm
      rw [step_queued hw hb, hbegin, ← step_running hrun, ← unit_drain_step hrunning,
        unit_drain_running (u.lanesIdle_begin job batch) hrun hcount, begin, runBatches_work]
      rw [hnumber, htotal, hwidth, Nat.zero_add] at hcount
      rw [hnumber, hcount]
      rfl

end VectorUnit

end VectorMachine
