import VectorMachine.Proofs.Cell
import VectorMachine.Proofs.VectorUnit.Batch

namespace VectorMachine

def Job.HazardFree (j : Job) : Prop :=
  j.len ≤ 128 ∧ ((j.dst - j.src).val = 0 ∨ j.len ≤ (j.dst - j.src).val)

instance (j : Job) : Decidable j.HazardFree :=
  inferInstanceAs (Decidable (_ ∧ _))

theorem Job.HazardFree.dst_ne_src {j : Job} (h : j.HazardFree) {m n : Nat} (hn : n < m)
    (hm : m < j.len) : j.dst.offset n ≠ j.src.offset m := by
  intro he
  obtain ⟨hlen, hd⟩ := h
  have hv := congrArg Fin.val he
  simp only [Cell.val_offset] at hv
  rw [Fin.val_sub] at hd
  omega

theorem Job.HazardFree.dst_ne_dst {j : Job} (h : j.HazardFree) {m n : Nat} (hn : n < m)
    (hm : m < j.len) : j.dst.offset n ≠ j.dst.offset m :=
  Cell.offset_ne j.dst hn (by have := h.1; omega)

namespace VectorUnit

theorem storeFrom_append (memory : Vector Word 128) (dst : UnitCell) (i : Nat) (xs ys : List Word) :
    storeFrom memory dst i (xs ++ ys) =
      storeFrom (storeFrom memory dst i xs) dst (i + xs.length) ys := by
  induction xs generalizing memory i with
  | nil => rfl
  | cons x xs ih =>
      simp only [List.cons_append, storeFrom, ih, List.length_cons]
      congr 1
      omega

theorem get_storeFrom_of_ne (memory : Vector Word 128) {dst c : UnitCell} {i : Nat}
    {ws : List Word} (h : ∀ k, k < ws.length → dst.offset (i + k) ≠ c) :
    (storeFrom memory dst i ws).get c = memory.get c := by
  induction ws generalizing memory i with
  | nil => rfl
  | cons w ws ih =>
      have hne : (dst.offset i).val ≠ c.val := fun he => h 0 (by simp) (Fin.ext he)
      have hrest (k : Nat) (hk : k < ws.length) : dst.offset (i + 1 + k) ≠ c := by
        rw [Nat.add_assoc, Nat.add_comm 1 k]
        exact h (k + 1) (by simpa using hk)
      rw [storeFrom, ih _ hrest]
      exact Vector.getElem_set_ne _ _ hne

theorem get_storeFrom (memory : Vector Word 128) {dst c : UnitCell} {i k : Nat} {ws : List Word}
    (h : ws.length ≤ 128) (hk : k < ws.length) (hc : dst.offset (i + k) = c) :
    (storeFrom memory dst i ws).get c = ws[k] := by
  induction ws generalizing memory i k with
  | nil => simp at hk
  | cons w ws ih =>
      rw [List.length_cons] at h hk
      cases k with
      | zero =>
          have hlater (k : Nat) (hk : k < ws.length) : dst.offset (i + 1 + k) ≠ c :=
            hc ▸ (Cell.offset_ne dst (by omega) (by omega)).symm
          rw [storeFrom, get_storeFrom_of_ne _ hlater]
          subst hc
          exact Vector.getElem_set_self _
      | succ k =>
          have hc' : dst.offset (i + 1 + k) = c := by
            rw [← hc, Nat.add_right_comm, Nat.add_assoc]
          exact ih _ (by omega) (by omega) hc'

theorem words_storeFrom {job : Job} (h : job.HazardFree) (memory : Vector Word 128)
    {done count : Nat} (hc : done + count ≤ job.len) {ws : List Word} (hw : ws.length = done) :
    job.words (storeFrom memory job.dst 0 ws) done count = job.words memory done count := by
  apply Job.words_congr
  intro i hl hu
  have hsrc : (storeFrom memory job.dst 0 ws).get (job.src.offset i) =
      memory.get (job.src.offset i) := by
    apply get_storeFrom_of_ne
    intro k hk
    rw [Nat.zero_add]
    exact h.dst_ne_src (by omega) (by omega)
  have hdst : (storeFrom memory job.dst 0 ws).get (job.dst.offset i) =
      memory.get (job.dst.offset i) := by
    apply get_storeFrom_of_ne
    intro k hk
    rw [Nat.zero_add]
    exact h.dst_ne_dst (by omega) (by omega)
  rw [Job.word, Job.word, hsrc, hdst]

theorem memory_runBatches {u : VectorUnit} {job : Job} (hr : job.op.reduction = false)
    (h : job.HazardFree) {n : Nat} (hn : n ≤ job.batches u.width) :
    (u.runBatches job 0 n).memory =
      storeFrom u.memory job.dst 0 (job.words u.memory 0 (min job.len (n * u.width))) := by
  induction n with
  | zero => simp [runBatches, Job.words, storeFrom]
  | succ n ih =>
      have hlt : n * u.width < job.len := (lt_batchCount_iff u.width_pos).1 hn
      have hmin : min job.len (n * u.width) = n * u.width := Nat.min_eq_right (Nat.le_of_lt hlt)
      have hc : n * u.width + job.count u.width n ≤ job.len := by
        rw [← Job.min_succ_mul hlt]
        exact Nat.min_le_left _ _
      have hm := ih (Nat.le_of_succ_le hn)
      rw [hmin] at hm
      -- the batch may be told from the memory before the job
      have hwords := words_storeFrom h u.memory hc (job.length_words u.memory 0 (n * u.width))
      rw [runBatches_succ, Nat.zero_add, afterBatch]
      simp only [hr, width_runBatches, hm, hwords]
      rw [Job.min_succ_mul hlt, ← Job.words_append, storeFrom_append, Job.length_words,
        Nat.zero_add]
      rfl

theorem result_runBatches {u : VectorUnit} {job : Job} (hr : job.op.reduction = false) (n : Nat) :
    (u.runBatches job 0 n).result = u.result := by
  induction n with
  | zero => rfl
  | succ n ih =>
      rw [runBatches_succ, afterBatch]
      simp only [hr, ih]
      rfl

theorem memory_drain_start {u started : VectorUnit} {job : Job} (hr : job.op.reduction = false)
    (hz : job.HazardFree) (h : u.start job = .ok started) :
    started.drain.unit.memory = storeFrom u.memory job.dst 0 (job.words u.memory 0 job.len) := by
  have hwidth : (u.pickUp job).width = u.width := u.width_pickUp job
  have hall : job.batches u.width ≤ job.batches (u.pickUp job).width :=
    Nat.le_of_eq (congrArg job.batches hwidth.symm)
  have hm := memory_runBatches hr hz hall
  rw [hwidth, Job.min_batches_mul u.width_pos] at hm
  rw [drain_start h]
  exact hm

theorem elementwise_is_simultaneous (u : VectorUnit) (job : Job) (hidle : u.work = .idle)
    (hop : job.op.reduction = false) (hsafe : job.HazardFree) :
    ∃ started, u.start job = .ok started ∧
      (∀ i, i < job.len →
        started.drain.unit.read (job.dst.offset i) =
          job.op.element (u.read (job.src.offset i))
            (if job.op.readsDestination then u.read (job.dst.offset i) else 0) job.scalar) ∧
      (∀ c, (∀ i, i < job.len → job.dst.offset i ≠ c) →
        started.drain.unit.read c = u.read c) ∧
      started.drain.unit.result = u.result := by
  have hstart := start_of_idle hidle job
  have hmem := memory_drain_start hop hsafe hstart
  have hlen := job.length_words u.memory 0 job.len
  refine ⟨_, hstart, ?_, ?_, ?_⟩
  · intro i hi
    have hk : i < (job.words u.memory 0 job.len).length := by rwa [hlen]
    have hc : job.dst.offset (0 + i) = job.dst.offset i := by rw [Nat.zero_add]
    rw [read, hmem, get_storeFrom _ (by rw [hlen]; exact hsafe.1) hk hc]
    simp [Job.words, Job.word, read]
  · intro c hc
    rw [read, hmem]
    apply get_storeFrom_of_ne
    intro k hk
    rw [Nat.zero_add]
    exact hc k (by rwa [hlen] at hk)
  · rw [drain_start hstart]
    refine (result_runBatches hop _).trans ?_
    simp only [pickUp, hop]
    rfl

def slope : VectorUnit :=
  { new 3 with memory := Vector.ofFn fun i => UInt16.ofNat (700 * i.val), result := 9 }

def slopeSum : Job := ⟨.add, Cell.ofNat 124, Cell.ofNat 2, 5, none⟩

theorem elementwise_is_simultaneous_slope :
    slope.work = .idle ∧ slopeSum.op.reduction = false ∧ slopeSum.HazardFree ∧
    ∃ started, slope.start slopeSum = .ok started ∧
      started.drain.unit.read 2 = 22664 ∧ started.drain.unit.read 6 = 4200 ∧
      started.drain.unit.read 7 = 4900 ∧ started.drain.unit.result = 9 := by
  have hsafe : slopeSum.HazardFree := by decide
  obtain ⟨started, hs, hin, hout, hres⟩ :=
    elementwise_is_simultaneous slope slopeSum rfl rfl hsafe
  refine ⟨rfl, rfl, hsafe, started, hs, ?_, ?_, ?_, hres⟩
  · exact (hin 0 (by decide)).trans (by decide)
  · exact (hin 4 (by decide)).trans (by decide)
  · exact (hout 7 (by decide)).trans (by decide)

end VectorUnit

end VectorMachine
