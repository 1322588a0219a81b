import VectorMachine.Proofs.VectorUnit.Representation

namespace VectorMachine.VectorUnit

theorem exists_last_step {n : Nat} {requests : List Request} {job : Job} {batch : Batch}
    {stage : Stage} (h : ((new n).after requests).work = .running job batch (some stage)) :
    ∃ before later, requests = before ++ .step :: later ∧ (∀ r ∈ later, r.passive = true) ∧
      ((new n).after before).step.unit.work = .running job batch (some stage) := by
  induction requests using List.reverseRecOn with
  | nil => cases h
  | append_singleton requests r ih =>
      rw [after_append, after_cons, after_nil] at h
      by_cases hr : r.passive = true
      · have hprev : ((new n).after requests).work = .running job batch (some stage) := by
          cases r with
          | start j =>
              rw [serve_start] at h
              split at h
              · cases h
              · exact h
          | step => cases hr
          | drain => cases hr
          | reset => cases hr
          | _ => exact h
        obtain ⟨before, later, hs, hp, hw⟩ := ih hprev
        refine ⟨before, later ++ [r], ?_, ?_, hw⟩
        · rw [hs, List.append_assoc, List.cons_append]
        · intro q hq
          rcases List.mem_append.1 hq with hq | hq
          · exact hp q hq
          · rwa [List.mem_singleton.1 hq]
      · cases r with
        | step => exact ⟨requests, [], rfl, List.forall_mem_nil _, h⟩
        | drain => cases (work_drain _).symm.trans h
        | reset => cases h
        | _ => exact absurd rfl hr

theorem holds_after_of_passive {u : VectorUnit} {memory : Vector Word 128} (h : u.Holds memory)
    {requests : List Request} (hp : ∀ r ∈ requests, r.passive = true) :
    (u.after requests).Holds memory := by
  induction requests generalizing u with
  | nil => exact h
  | cons r requests ih =>
      rw [after_cons]
      refine ih (holds_serve_of_passive h (hp r List.mem_cons_self)) ?_
      intro q hq
      exact hp q (List.mem_cons_of_mem r hq)

theorem eq_of_nextPhase_eq {phase : Option Stage} {last : Stage}
    (hlast : last = .decode ∨ last = .fetch) (h : nextPhase phase = nextPhase (some last)) :
    phase = some last := by
  rcases hlast with rfl | rfl
  all_goals rcases phase with _ | (_ | _ | _ | _) <;> simp [nextPhase] at h ⊢

theorem Steps.work_of_phase {u v : VectorUnit} {job : Job} {batch : Batch} {last : Stage}
    (h : Steps u v) (hlast : last = .decode ∨ last = .fetch)
    (hv : v.work = .running job batch (some (nextPhase (some last)))) :
    u.work = .running job batch (some last) := by
  cases h with
  | rest hw => cases hw.symm.trans hv
  | skip hw hb => cases hv
  | pick hw hb => rcases hlast with rfl | rfl <;> cases hv
  | phase hw hx =>
      obtain ⟨rfl, rfl, hp⟩ := Work.running.inj hv
      rw [hw, eq_of_nextPhase_eq hlast (Option.some.inj hp)]
  | @turnOver _ b hw =>
      rw [work_turnOver] at hv
      cases hb : b.next? <;> rw [hb] at hv <;> cases hv

theorem storeFrom_words (u : VectorUnit) (dst : UnitCell) (word : Nat → Word) (i count : Nat) :
    storeFrom u.memory dst i ((List.range' i count).map word) =
      ((List.range' i count).foldl (fun v k => v.write (dst.offset k) (word k)) u).memory := by
  induction count generalizing u i with
  | zero => rfl
  | succ count ih => exact ih (u.write (dst.offset i) (word i)) (i + 1)

theorem foldFrom_words (op : VectorOp) (acc : Word) (word : Nat → Word) (i count : Nat) :
    foldFrom op acc i ((List.range' i count).map word) =
      (List.range' i count).foldl (fun acc k => op.fold acc (word k) (k == 0)) acc := by
  induction count generalizing acc i with
  | zero => rfl
  | succ count ih => exact ih (op.fold acc (word i) (i == 0)) (i + 1)

theorem outputs_of_holds {u : VectorUnit} {memory : Vector Word 128} (h : u.Holds memory)
    {job : Job} {batch : Batch} (hw : u.work = .running job batch (some .execute)) :
    u.outputs (job.count u.width batch.number) =
      job.words memory (batch.number * u.width) (job.count u.width batch.number) := by
  have hl := h.lanes_eq
  rw [hw] at hl
  have hc : job.count u.width batch.number ≤ (List.replicate u.width Lane.idle).length := by
    rw [List.length_replicate]
    exact job.count_le _ _
  have ho (i : Nat) (_ : Lane) :
      (job.laneAfter memory (batch.number * u.width + i) (some .execute)).output =
        job.word memory (batch.number * u.width + i) := rfl
  rw [outputs, hl, Work.lanes, Job.laneRow, Lane.output_onFirst hc ho, Job.words,
    List.range'_eq_map_range, List.map_map]
  rfl

theorem writeBatch_of_holds {u : VectorUnit} {memory : Vector Word 128} (h : u.Holds memory)
    {job : Job} {batch : Batch} (hw : u.work = .running job batch (some .execute)) :
    let elements := List.range' (batch.number * u.width) (job.count u.width batch.number)
    (u.writeBatch job batch.number).memory =
        (if job.op.reduction then u.memory
          else
            (elements.foldl (fun v k => v.write (job.dst.offset k) (job.word memory k)) u).memory) ∧
      (u.writeBatch job batch.number).result =
        if job.op.reduction then
          elements.foldl (fun acc k => job.op.fold acc (job.word memory k) (k == 0)) u.result
        else u.result := by
  intro elements
  have ho := outputs_of_holds h hw
  have hs := storeFrom_words u job.dst (job.word memory) (batch.number * u.width)
    (job.count u.width batch.number)
  have hf := foldFrom_words job.op u.result (job.word memory) (batch.number * u.width)
    (job.count u.width batch.number)
  rw [writeBatch]
  simp only [ho]
  split
  · exact ⟨rfl, hf⟩
  · exact ⟨hs, rfl⟩

theorem Steps.quiet {u v : VectorUnit} (h : Steps u v)
    (hw : ∀ job batch, u.work ≠ .running job batch (some .execute)) :
    v.memory = u.memory ∧
      v.result = if u.work.pending?.any (fun job => job.op.reduction) then 0 else u.result := by
  cases h with
  | rest h => simp [h, Work.pending?]
  | skip h hb => simp [h, Work.pending?, complete, pickUp]
  | pick h hb => simp [h, Work.pending?, afterPhase, runPhase, decodeBatch, begin, pickUp]
  | @phase job batch phase h hx =>
      have hn := mt nextPhase_eq_writeback_iff.1 hx
      have hsame : (u.runPhase job batch.number (nextPhase phase)).memory = u.memory ∧
          (u.runPhase job batch.number (nextPhase phase)).result = u.result := by
        cases hs : nextPhase phase with
        | writeback => exact absurd hs hn
        | _ => exact ⟨rfl, rfl⟩
      simpa [h, Work.pending?, afterPhase] using hsame
  | turnOver h => exact absurd h (hw _ _)

theorem result_serve_of_passive (u : VectorUnit) {r : Request} (h : r.passive = true) :
    (u.serve r).result = u.result := by
  cases r with
  | start job =>
      rw [serve_start]
      split <;> rfl
  | step => cases h
  | drain => cases h
  | reset => cases h
  | _ => rfl

theorem exists_fetch_of_executed {n : Nat} {requests : List Request} {job : Job} {batch : Batch}
    (h : ((new n).after requests).work = .running job batch (some .execute)) :
    ∃ before during later, requests = before ++ .step :: during ++ .step :: later ∧
      (∀ r ∈ during ++ later, r.passive = true) ∧
      ((new n).after before).work = .running job batch (some .decode) ∧
      ((new n).after requests).Holds ((new n).after before).memory := by
  -- back in the history: the execute step, the fetch step, and the lanes forward again from there
  obtain ⟨front, later, rfl, hlater, hexecuted⟩ := exists_last_step h
  have hfetched := (steps_step _).work_of_phase (.inr rfl) hexecuted
  obtain ⟨before, during, rfl, hduring, hfetch⟩ := exists_last_step hfetched
  have hdecoded := (steps_step _).work_of_phase (.inl rfl) hfetch
  obtain ⟨-, memory, hholds⟩ := holds_after n before
  have hfrom : ((new n).after before).fetchedFrom memory = ((new n).after before).memory := by
    rw [fetchedFrom, hdecoded]
  have hfirst := (steps_step _).holds hholds
  rw [hfrom] at hfirst
  have hmid := holds_after_of_passive hfirst hduring
  rw [after_append, after_cons, serve_step] at hfetched
  have hsecond := (steps_step _).holds hmid
  rw [fetchedFrom, hfetched] at hsecond
  refine ⟨before, during, later, rfl, ?_, hdecoded, ?_⟩
  · intro r hr
    exact (List.mem_append.1 hr).elim (hduring r) (hlater r)
  · simp only [after_append, after_cons]
    exact holds_after_of_passive hsecond hlater

theorem batch_uses_the_words_it_fetched (n : Nat) (requests : List Request) :
    let u := (new n).after requests
    (∀ job batch, u.work = .running job batch (some .execute) →
      ∃ before during later,
        requests = before ++ .step :: during ++ .step :: later ∧
        (∀ r ∈ during ++ later, r.passive = true) ∧
        let fetching := (new n).after before
        let elements :=
          List.range' (batch.number * u.width) (min u.width (job.len - batch.number * u.width))
        let word (k : Nat) := job.op.element (fetching.read (job.src.offset k))
          (if job.op.readsDestination then fetching.read (job.dst.offset k) else 0) job.scalar
        fetching.work = .running job batch (some .decode) ∧
        u.step.unit.memory =
          (if job.op.reduction then u.memory
            else (elements.foldl (fun v k => v.write (job.dst.offset k) (word k)) u).memory) ∧
        u.step.unit.result =
          if job.op.reduction then
            elements.foldl (fun acc k => job.op.fold acc (word k) (k == 0)) u.result
          else u.result) ∧
    ((∀ job batch, u.work ≠ .running job batch (some .execute)) →
      u.step.unit.memory = u.memory ∧
      u.step.unit.result =
        if u.work.pending?.any (fun job => job.op.reduction) then 0 else u.result) ∧
    ∀ r : Request, r.passive = true → (u.serve r).result = u.result := by
  intro u
  refine ⟨?_, u.steps_step.quiet, fun r => u.result_serve_of_passive⟩
  intro job batch hw
  obtain ⟨before, during, later, hsplit, hpassive, hdecoded, hholds⟩ := exists_fetch_of_executed hw
  obtain ⟨hmemory, hresult⟩ := writeBatch_of_holds hholds hw
  have hstep : u.step.unit = u.turnOver job batch := steps_iff.1 (.turnOver hw)
  refine ⟨before, during, later, hsplit, hpassive, hdecoded, ?_, ?_⟩
  · rw [hstep, memory_turnOver]
    exact hmemory
  · rw [hstep, result_turnOver]
    exact hresult

def shift : Job := ⟨.copy, Cell.ofNat 0, Cell.ofNat 1, 3, none⟩

def firstOfTwo : Batch := ⟨0, 2, by decide⟩

def crossing : List Request :=
  [.write (Cell.ofNat 0) 7, .write (Cell.ofNat 1) 8, .start shift, .step, .step,
    .write (Cell.ofNat 0) 99, .step, .write (Cell.ofNat 1) 50]

theorem batch_uses_the_words_it_fetched_crossing :
    ((new 2).after crossing).work = .running shift firstOfTwo (some .execute) ∧
    (∃ before during later,
      crossing = before ++ .step :: during ++ .step :: later ∧
      ((new 2).after before).work = .running shift firstOfTwo (some .decode) ∧
      ((new 2).after crossing).step.unit.result = ((new 2).after crossing).result) ∧
    ((new 2).after crossing).read (Cell.ofNat 0) = 99 ∧
    ((new 2).after crossing).step.unit.read (Cell.ofNat 1) = 7 ∧
    ((new 2).after crossing).step.unit.read (Cell.ofNat 2) = 8 := by
  have hw : ((new 2).after crossing).work = .running shift firstOfTwo (some .execute) := by
    decide +kernel
  obtain ⟨before, during, later, hsplit, -, hdecoded, -, hresult⟩ :=
    (batch_uses_the_words_it_fetched 2 crossing).1 shift firstOfTwo hw
  have hkept := hresult.trans (if_neg (by decide))
  refine ⟨hw, ⟨before, during, later, hsplit, hdecoded, hkept⟩, ?_, ?_, ?_⟩
  all_goals decide +kernel

end VectorMachine.VectorUnit
