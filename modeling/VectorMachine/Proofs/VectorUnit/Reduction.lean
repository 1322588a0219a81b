import Mathlib.Algebra.BigOperators.Ring.Finset
import Mathlib.Data.Nat.SuccPred
import Mathlib.Order.Bounds.Basic
import VectorMachine.Proofs.VectorUnit.Batch

namespace VectorMachine

namespace Job

def folded (j : Job) (memory : Vector Word 128) (n : Nat) : Word :=
  VectorUnit.foldFrom j.op 0 0 (j.words memory 0 n)

end Job

namespace VectorUnit

theorem foldFrom_append (op : VectorOp) (acc : Word) (i : Nat) (xs ys : List Word) :
    foldFrom op acc i (xs ++ ys) = foldFrom op (foldFrom op acc i xs) (i + xs.length) ys := by
  induction xs generalizing acc i with
  | nil => rfl
  | cons x xs ih =>
      simp only [List.cons_append, foldFrom, ih, List.length_cons]
      congr 1
      omega

theorem folded_runBatches {u : VectorUnit} {job : Job} (hr : job.op.reduction = true)
    (h0 : u.result = 0) {n : Nat} (hn : n ≤ job.batches u.width) :
    (u.runBatches job 0 n).memory = u.memory ∧
      (u.runBatches job 0 n).result = job.folded u.memory (min job.len (n * u.width)) := by
  induction n with
  | zero => exact ⟨rfl, by simp [runBatches, Job.folded, Job.words, foldFrom, h0]⟩
  | succ n ih =>
      obtain ⟨hm, hf⟩ := ih (Nat.le_of_succ_le hn)
      have hlt : n * u.width < job.len := (lt_batchCount_iff u.width_pos).1 hn
      have hmin : min job.len (n * u.width) = n * u.width := Nat.min_eq_right (Nat.le_of_lt hlt)
      rw [hmin] at hf
      rw [runBatches_succ, Nat.zero_add, afterBatch]
      simp only [hr, if_true, width_runBatches, hm, hf]
      refine ⟨trivial, ?_⟩
      rw [Job.min_succ_mul hlt, Job.folded, Job.folded, ← Job.words_append, foldFrom_append,
        Job.length_words, Nat.zero_add]

end VectorUnit

namespace Job

variable {j : Job} {memory : Vector Word 128}

theorem folded_zero : j.folded memory 0 = 0 := rfl

theorem folded_succ (n : Nat) :
    j.folded memory (n + 1) = j.op.fold (j.folded memory n) (j.word memory n) (n == 0) := by
  rw [folded, words_succ, VectorUnit.foldFrom_append, length_words, Nat.zero_add]
  rfl

theorem toNat_folded_of_add (h : ∀ acc w first, j.op.fold acc w first = acc + w) (n : Nat) :
    (j.folded memory n).toNat = (∑ i ∈ Finset.range n, (j.word memory i).toNat) % 2 ^ 16 := by
  induction n with
  | zero => rfl
  | succ n ih =>
      rw [folded_succ, h, UInt16.toNat_add, ih, Finset.sum_range_succ, Nat.mod_add_mod]

def values (j : Job) (memory : Vector Word 128) (n : Nat) : Set Nat :=
  Set.image (fun i => (j.word memory i).toNat) (Set.Iio n)

theorem word_of_element (h : ∀ a b, j.op.element a b j.scalar = a) (i : Nat) :
    j.word memory i = memory.get (j.src.offset i) :=
  h _ _

theorem values_of_element (h : ∀ a b, j.op.element a b j.scalar = a) (n : Nat) :
    j.values memory n = Set.image (fun i => (memory.get (j.src.offset i)).toNat) (Set.Iio n) := by
  simp only [values, word_of_element h]

theorem values_succ (n : Nat) :
    j.values memory (n + 1) = insert (j.word memory n).toNat (j.values memory n) := by
  have hn : Set.Iio (n + 1) = insert n (Set.Iio n) := Order.Iio_succ_eq_insert n
  rw [values, hn, Set.image_insert_eq]
  rfl

theorem values_one : j.values memory 1 = {(j.word memory 0).toNat} := by
  have h0 : j.values memory 0 = ∅ := by simp [values]
  rw [values_succ, h0]
  exact insert_empty_eq _

theorem folded_of_seeded {P : Set Nat → Nat → Prop} (hseed : ∀ acc w, j.op.fold acc w true = w)
    (hone : ∀ a, P {a} a)
    (hmore : ∀ s acc w, P s acc.toNat → P (insert w.toNat s) (j.op.fold acc w false).toNat)
    {n : Nat} (hn : 0 < n) : P (j.values memory n) (j.folded memory n).toNat := by
  have hfirst : j.folded memory 1 = j.word memory 0 := (folded_succ 0).trans (hseed _ _)
  have hbase : P (j.values memory 1) (j.folded memory 1).toNat := by
    rw [values_one, hfirst]
    exact hone _
  induction n, hn using Nat.le_induction with
  | base => exact hbase
  | succ n hn ih =>
      have hlater : (n == 0) = false := beq_false_of_ne (Nat.ne_of_gt hn)
      rw [values_succ, folded_succ, hlater]
      exact hmore _ _ _ ih

theorem isGreatest_folded (h : j.op = .max) {n : Nat} (hn : 0 < n) :
    IsGreatest (j.values memory n) (j.folded memory n).toNat := by
  refine folded_of_seeded (P := IsGreatest) ?_ ?_ ?_ hn
  · intro acc w
    rw [h]
    rfl
  · intro a
    exact isGreatest_singleton
  · intro s acc w hs
    have hf : (j.op.fold acc w false).toNat = max w.toNat acc.toNat := by
      rw [h]
      simp only [VectorOp.fold, Bool.false_eq_true, if_false, UInt16.le_iff_toNat_le]
      split <;> omega
    rw [hf]
    exact hs.insert _

theorem isLeast_folded (h : j.op = .min) {n : Nat} (hn : 0 < n) :
    IsLeast (j.values memory n) (j.folded memory n).toNat := by
  refine folded_of_seeded (P := IsLeast) ?_ ?_ ?_ hn
  · intro acc w
    rw [h]
    rfl
  · intro a
    exact isLeast_singleton
  · intro s acc w hs
    have hf : (j.op.fold acc w false).toNat = min w.toNat acc.toNat := by
      rw [h]
      simp only [VectorOp.fold, Bool.false_eq_true, if_false, UInt16.le_iff_toNat_le]
      split <;> omega
    rw [hf]
    exact hs.insert _

end Job

namespace VectorUnit

theorem folded_drain_start {u started : VectorUnit} {job : Job} (hr : job.op.reduction = true)
    (h : u.start job = .ok started) :
    started.drain.unit.memory = u.memory ∧
      started.drain.unit.result = job.folded u.memory job.len := by
  have hwidth : (u.pickUp job).width = u.width := u.width_pickUp job
  have hzero : (u.pickUp job).result = 0 := by
    simp only [pickUp, hr, if_true]
  obtain ⟨hm, hf⟩ := folded_runBatches hr hzero
    (Nat.le_of_eq (congrArg job.batches hwidth.symm))
  rw [hwidth, Job.min_batches_mul u.width_pos] at hf
  rw [drain_start h]
  exact ⟨hm, hf⟩

theorem reduction_is_exact (u : VectorUnit) (job : Job) (hidle : u.work = .idle)
    (hop : job.op.reduction = true) :
    ∃ started, u.start job = .ok started ∧
      let done := started.drain.unit
      let a i := (u.read (job.src.offset i)).toNat
      let b i := (u.read (job.dst.offset i)).toNat
      done.memory = u.memory ∧
      (job.op = .sum → done.result.toNat = (∑ i ∈ Finset.range job.len, a i) % 2 ^ 16) ∧
      (job.op = .dot → done.result.toNat = (∑ i ∈ Finset.range job.len, a i * b i) % 2 ^ 16) ∧
      (job.op = .max → 0 < job.len →
        IsGreatest (Set.image a (Set.Iio job.len)) done.result.toNat) ∧
      (job.op = .min → 0 < job.len →
        IsLeast (Set.image a (Set.Iio job.len)) done.result.toNat) ∧
      (job.len = 0 → done.result = 0) := by
  have hstart := start_of_idle hidle job
  obtain ⟨hmem, hres⟩ := folded_drain_start hop hstart
  refine ⟨_, hstart, hmem, ?_, ?_, ?_, ?_, ?_⟩
  · intro hsum
    rw [hres, Job.toNat_folded_of_add (by rw [hsum]; intros; rfl)]
    simp only [Job.word_of_element (by rw [hsum]; intros; rfl)]
    rfl
  · intro hdot
    have hw (i : Nat) : job.word u.memory i =
        u.read (job.src.offset i) * u.read (job.dst.offset i) := by
      rw [Job.word, hdot]
      rfl
    rw [hres, Job.toNat_folded_of_add (by rw [hdot]; intros; rfl)]
    simp only [hw, UInt16.toNat_mul]
    exact (Finset.sum_nat_mod _ _ _).symm
  · intro hmax hlen
    have hg : IsGreatest (job.values u.memory job.len) _ := Job.isGreatest_folded hmax hlen
    rw [Job.values_of_element (by rw [hmax]; intros; rfl)] at hg
    rw [hres]
    exact hg
  · intro hmin hlen
    have hl : IsLeast (job.values u.memory job.len) _ := Job.isLeast_folded hmin hlen
    rw [Job.values_of_element (by rw [hmin]; intros; rfl)] at hl
    rw [hres]
    exact hl
  · intro hlen
    rw [hres, hlen]
    exact Job.folded_zero

def ramp : VectorUnit :=
  { new 3 with memory := Vector.ofFn fun i => UInt16.ofNat (700 * i.val), result := 9 }

def rampDot : Job := ⟨.dot, Cell.ofNat 120, Cell.ofNat 5, 130, none⟩

theorem reduction_is_exact_ramp :
    ramp.work = .idle ∧ rampDot.op.reduction = true ∧
    ∃ started, ramp.start rampDot = .ok started ∧
      started.drain.unit.memory = ramp.memory ∧ started.drain.unit.result.toNat = 36576 := by
  obtain ⟨started, hs, hmem, -, hdot, -⟩ := reduction_is_exact ramp rampDot rfl rfl
  refine ⟨rfl, rfl, started, hs, hmem, ?_⟩
  rw [hdot rfl]
  decide +kernel

end VectorUnit

end VectorMachine
