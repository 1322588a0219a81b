import VectorMachine.Proofs.VectorUnit.Elementwise
import VectorMachine.Proofs.VectorUnit.Steps
import VectorMachine.VectorUnit.Transfer

namespace VectorMachine

namespace Job

def Reads (j : Job) (c : UnitCell) : Prop := ∃ i, i < j.len ∧ j.src.offset i = c

def Writes (j : Job) (c : UnitCell) : Prop := ∃ i, i < j.len ∧ j.dst.offset i = c

instance (j : Job) (c : UnitCell) : Decidable (j.Reads c) :=
  decidable_of_iff (∃ i ∈ List.range j.len, j.src.offset i = c) (by simp [Reads])

instance (j : Job) (c : UnitCell) : Decidable (j.Writes c) :=
  decidable_of_iff (∃ i ∈ List.range j.len, j.dst.offset i = c) (by simp [Writes])

/-- A change of memory that leaves the cells of the job alone and does not look at its results. -/
structure Spared (j : Job) (g : Vector Word 128 → Vector Word 128) : Prop where
  get_src : ∀ memory i, i < j.len → (g memory).get (j.src.offset i) = memory.get (j.src.offset i)
  get_dst : ∀ memory i, i < j.len → (g memory).get (j.dst.offset i) = memory.get (j.dst.offset i)
  store : ∀ memory i ws, (∀ k, k < ws.length → i + k < j.len) →
    g (VectorUnit.storeFrom memory j.dst i ws) = VectorUnit.storeFrom (g memory) j.dst i ws

end Job

namespace VectorUnit

def put {size : Nat} (a : Cell size) (w : Word) (memory : Vector Word size) : Vector Word size :=
  memory.set a.val w a.isLt

theorem get_put_of_ne {size : Nat} {a c : Cell size} (h : c ≠ a) (w : Word)
    (memory : Vector Word size) : (put a w memory).get c = memory.get c :=
  Vector.getElem_set_ne _ _ fun he => h (Fin.ext he.symm)

theorem put_storeFrom {a dst : UnitCell} (w : Word) (memory : Vector Word 128) {i : Nat}
    {ws : List Word} (h : ∀ k, k < ws.length → dst.offset (i + k) ≠ a) :
    put a w (storeFrom memory dst i ws) = storeFrom (put a w memory) dst i ws := by
  induction ws generalizing memory i with
  | nil => rfl
  | cons x ws ih =>
      have hfirst : (dst.offset i).val ≠ a.val := fun he => h 0 (by simp) (Fin.ext he)
      have hrest (k : Nat) (hk : k < ws.length) : dst.offset (i + 1 + k) ≠ a := by
        rw [Nat.add_assoc, Nat.add_comm 1 k]
        exact h (k + 1) (by simpa using hk)
      simp only [storeFrom]
      rw [ih _ hrest]
      congr 1
      exact Vector.set_comm _ _ hfirst

theorem copyIn_succ {size : Nat} (memory : Vector Word 128) (primary : Vector Word size)
    (src : PrimaryCell) (dst : UnitCell) (len : Nat) :
    copyIn memory primary src dst (len + 1) =
      put (dst.offset len) (primary[(src.offset len).val]?.getD 0)
        (copyIn memory primary src dst len) :=
  Nat.fold_succ ..

section Spared

variable {job : Job}

theorem spared_id : job.Spared id :=
  ⟨fun _ _ _ => rfl, fun _ _ _ => rfl, fun _ _ _ _ => rfl⟩

theorem spared_put {a : UnitCell} (hr : ¬ job.Reads a) (hw : ¬ job.Writes a) (w : Word) :
    job.Spared (put a w) := by
  constructor
  · intro memory i hi
    exact get_put_of_ne (fun he => hr ⟨i, hi, he⟩) w memory
  · intro memory i hi
    exact get_put_of_ne (fun he => hw ⟨i, hi, he⟩) w memory
  · intro memory i ws h
    exact put_storeFrom w memory fun k hk he => hw ⟨i + k, h k hk, he⟩

theorem spared_comp {f g : Vector Word 128 → Vector Word 128} (hf : job.Spared f)
    (hg : job.Spared g) : job.Spared (f ∘ g) := by
  constructor
  · intro memory i hi
    exact (hf.get_src _ i hi).trans (hg.get_src memory i hi)
  · intro memory i hi
    exact (hf.get_dst _ i hi).trans (hg.get_dst memory i hi)
  · intro memory i ws h
    exact (congrArg f (hg.store memory i ws h)).trans (hf.store _ i ws h)

theorem spared_copyIn {size : Nat} {primary : Vector Word size} {src : PrimaryCell}
    {dst : UnitCell} {len : Nat} (hr : ∀ k, k < len → ¬ job.Reads (dst.offset k))
    (hw : ∀ k, k < len → ¬ job.Writes (dst.offset k)) :
    job.Spared fun memory => copyIn memory primary src dst len := by
  induction len with
  | zero => exact spared_id
  | succ len ih =>
      have hfirst := ih (fun k hk => hr k (Nat.lt_succ_of_lt hk))
        (fun k hk => hw k (Nat.lt_succ_of_lt hk))
      have hlast := spared_put (hr len (Nat.lt_succ_self len)) (hw len (Nat.lt_succ_self len))
        (primary[(src.offset len).val]?.getD 0)
      have hboth := spared_comp hlast hfirst
      simp only [copyIn_succ]
      exact hboth

end Spared

def amend (g : Vector Word 128 → Vector Word 128) (n : Nat) (u : VectorUnit) : VectorUnit :=
  { u with
    memory := g u.memory
    counters := { u.counters with wordsTransferred := u.counters.wordsTransferred + n } }

end VectorUnit

theorem Lane.onFirst_congr {count : Nat} {f g : Nat → Lane → Lane}
    (h : ∀ i, i < count → f i = g i) (lanes : List Lane) :
    onFirst count f lanes = onFirst count g lanes := by
  apply List.ext_getElem
  · simp [onFirst]
  · intro i h₁ h₂
    simp only [onFirst, List.getElem_mapIdx]
    split
    · rename_i hi
      rw [h i hi]
    · rfl

theorem Job.element_lt {j : Job} {width batch i : Nat} (h : i < j.count width batch) :
    batch * width + i < j.len := by
  rw [Job.count] at h
  omega

namespace VectorUnit

theorem length_outputs_le (u : VectorUnit) (count : Nat) : (u.outputs count).length ≤ count := by
  rw [outputs, List.length_map, List.length_take]
  exact Nat.min_le_left _ _

section Amend

variable {job : Job} {g : Vector Word 128 → Vector Word 128}

theorem fetchBatch_amend (h : job.Spared g) (u : VectorUnit) (n batch : Nat) :
    (u.amend g n).fetchBatch job batch = (u.fetchBatch job batch).amend g n := by
  have hlanes : ((u.amend g n).fetchBatch job batch).lanes = (u.fetchBatch job batch).lanes := by
    refine Lane.onFirst_congr ?_ u.lanes
    intro i hi
    have hlt : batch * u.width + i < job.len := Job.element_lt hi
    have hs : (u.amend g n).read (job.src.offset (batch * u.width + i)) = u.read _ :=
      h.get_src u.memory _ hlt
    have hd : (u.amend g n).read (job.dst.offset (batch * u.width + i)) = u.read _ :=
      h.get_dst u.memory _ hlt
    have hw : (u.amend g n).width = u.width := rfl
    simp only [hw, hs, hd]
  exact VectorUnit.ext rfl hlanes rfl rfl rfl rfl

theorem writeBatch_amend (h : job.Spared g) (u : VectorUnit) (n batch : Nat) :
    (u.amend g n).writeBatch job batch = (u.writeBatch job batch).amend g n := by
  have hbound (k : Nat) (hk : k < (u.outputs (job.count u.width batch)).length) :
      batch * u.width + k < job.len :=
    Job.element_lt (Nat.lt_of_lt_of_le hk (u.length_outputs_le _))
  have hstore := h.store u.memory _ _ hbound
  simp only [writeBatch]
  split
  · rfl
  · simp only [amend]
    rw [hstore]
    rfl

theorem afterPhase_amend (h : job.Spared g) (u : VectorUnit) (n : Nat) (batch : Batch)
    (stage : Stage) :
    (u.amend g n).afterPhase job batch stage = (u.afterPhase job batch stage).amend g n := by
  cases stage with
  | decode => rfl
  | execute => rfl
  | fetch =>
      simp only [afterPhase, runPhase, fetchBatch_amend h]
      rfl
  | writeback =>
      simp only [afterPhase, runPhase, writeBatch_amend h]
      rfl

theorem turnOver_amend (h : job.Spared g) (u : VectorUnit) (n : Nat) (batch : Batch) :
    (u.amend g n).turnOver job batch = (u.turnOver job batch).amend g n := by
  simp only [turnOver, afterPhase_amend h]
  cases batch.next? <;> rfl

theorem Steps.amend {u v : VectorUnit} (hs : Steps u v)
    (h : ∀ job, u.work.job? = some job → job.Spared g) (n : Nat) :
    Steps (u.amend g n) (v.amend g n) := by
  cases hs with
  | rest hw => exact .rest hw
  | skip hw hb => exact .skip hw hb
  | @pick job batch hw hb =>
      have hp := afterPhase_amend (h job (by rw [hw]; rfl)) (u.begin job batch) n batch .decode
      rw [← hp]
      exact .pick hw hb
  | @phase job batch phase hw hx =>
      rw [← afterPhase_amend (h job (by rw [hw]; rfl))]
      exact .phase hw hx
  | @turnOver job batch hw =>
      rw [← turnOver_amend (h job (by rw [hw]; rfl))]
      exact .turnOver hw

end Amend

theorem Steps.job {u v : VectorUnit} (h : Steps u v) {job : Job} (hv : v.work.job? = some job) :
    u.work.job? = some job := by
  cases h with
  | rest hw => exact hv
  | skip hw hb => cases hv
  | pick hw hb =>
      rw [hw]
      exact hv
  | phase hw hx =>
      rw [hw]
      exact hv
  | @turnOver _ batch hw =>
      rw [work_turnOver] at hv
      cases hb : batch.next? with
      | none =>
          rw [hb] at hv
          cases hv
      | some next =>
          rw [hb] at hv
          rw [hw]
          exact hv

theorem Steps.read {u v : VectorUnit} (h : Steps u v) {c : UnitCell}
    (hc : ∀ job, u.work.job? = some job → ¬ job.Writes c) : v.read c = u.read c := by
  cases h with
  | rest hw => rfl
  | skip hw hb => rfl
  | pick hw hb => rfl
  | @phase job batch phase hw hx =>
      cases hn : nextPhase phase with
      | writeback => exact absurd hn (mt nextPhase_eq_writeback_iff.1 hx)
      | _ => rfl
  | @turnOver job batch hw =>
      have hout := hc job (by rw [hw]; rfl)
      rw [VectorUnit.read, VectorUnit.read, memory_turnOver]
      simp only [writeBatch]
      split
      · rfl
      · apply get_storeFrom_of_ne
        intro k hk he
        have hlt := Nat.lt_of_lt_of_le hk (u.length_outputs_le _)
        exact hout ⟨_, Job.element_lt hlt, he⟩

def stepped (u : VectorUnit) : Nat → VectorUnit
  | 0 => u
  | k + 1 => (u.stepped k).step.unit

variable {u : VectorUnit}

theorem width_stepped (u : VectorUnit) (k : Nat) : (u.stepped k).width = u.width := by
  induction k with
  | zero => rfl
  | succ k ih => exact (steps_step _).width_eq.trans ih

theorem job_stepped {k : Nat} {job : Job} (h : (u.stepped k).work.job? = some job) :
    u.work.job? = some job := by
  induction k with
  | zero => exact h
  | succ k ih => exact ih ((steps_step _).job h)

theorem stepped_of_idle (h : u.work = .idle) (k : Nat) : u.stepped k = u := by
  induction k with
  | zero => rfl
  | succ k ih =>
      rw [stepped, ih]
      exact steps_iff.1 (.rest h)

theorem stepped_amend {g : Vector Word 128 → Vector Word 128}
    (h : ∀ job, u.work.job? = some job → job.Spared g) (n k : Nat) :
    (u.amend g n).stepped k = (u.stepped k).amend g n := by
  induction k with
  | zero => rfl
  | succ k ih =>
      have hk (job : Job) (hj : (u.stepped k).work.job? = some job) := h job (job_stepped hj)
      rw [stepped, ih]
      exact steps_iff.1 ((steps_step (u.stepped k)).amend hk n)

theorem read_stepped {c : UnitCell} (h : ∀ job, u.work.job? = some job → ¬ job.Writes c)
    (k : Nat) : (u.stepped k).read c = u.read c := by
  induction k with
  | zero => rfl
  | succ k ih => exact ((steps_step _).read fun job hj => h job (job_stepped hj)).trans ih

theorem unit_drain_stepped (u : VectorUnit) (k : Nat) :
    (u.stepped k).drain.unit = u.drain.unit := by
  induction k with
  | zero => rfl
  | succ k ih =>
      rw [← ih, stepped]
      by_cases hi : (u.stepped k).work = .idle
      · rw [steps_iff.1 (.rest hi)]
      · exact (unit_drain_step hi).symm

end VectorUnit

end VectorMachine
