import VectorMachine.Proofs.Processor.CallEvents
import VectorMachine.Proofs.Processor.OtherUnit
import VectorMachine.Proofs.VectorUnit.Representation

namespace VectorMachine

/-- The place holds what a step shows as its new content. Only a step of a launch shows something
for the unit: the batches of the job that now waits there. -/
def Place.Holds (q : Processor) (v : Int64) : Place → Prop
  | .operand (some (.register r)) => v.toInt = (q.registers.read r).toNat
  | .primary (some a) => v.toInt = (q.memory.get a).toNat
  | .unitCell (some a) => ∃ u, q.unit = some u ∧ v.toInt = (u.read a).toNat
  | .pc => v = Int64.ofNat q.pc
  | .sp => v.toInt = q.sp.val
  | .flags => q.flags = .ofRaw v
  | .unit => ∃ u job, q.unit = some u ∧ u.work = .queued job ∧ v.toInt = job.batches u.width
  | _ => False

def MicroOp.Foretells (m : MicroOp) (q : Processor) : Prop :=
  ∀ v d, m.value = some v → m.destination = some d → d.Holds q v

namespace MicroOp.Foretells

variable {m : MicroOp} {q : Processor}

theorem shown {stage : Stage} {description : String} {source : Option Place} {d : Place}
    {v : Int64} (h : d.Holds q v) :
    MicroOp.Foretells ⟨stage, description, source, some d, some v⟩ q := by
  intro w e hw he
  cases hw
  cases he
  exact h

theorem of_value_none (h : m.value = none) : m.Foretells q := by
  intro v d hv
  cases h.symm.trans hv

theorem of_destination_none (h : m.destination = none) : m.Foretells q := by
  intro v d _ hd
  cases h.symm.trans hd

end MicroOp.Foretells

def Opcode.writesBack : Opcode → Bool
  | .nop | .hlt | .gload | .gstore | .gexec | .gwait => false
  | _ => true

namespace Processor

section Results

variable {p : Processor}

theorem exists_eval?_of_aluOutput? {op : AluOp} {a b : Option Operand} {out : Alu.Output}
    (h : p.aluOutput? op a b = some out) :
    ∃ x y, p.value? a = some x ∧ (op.unary = false → p.value? b = some y) ∧
      Alu.eval? op x y = some out := by
  obtain ⟨x, hx, h⟩ := Option.bind_eq_some_iff.1 h
  dsimp only at h
  split at h
  · rename_i hu
    exact ⟨x, 0, hx, fun hf => absurd hu (Bool.eq_false_iff.1 hf), h⟩
  · obtain ⟨y, hy, h⟩ := Option.bind_eq_some_iff.1 h
    exact ⟨x, y, hx, fun _ => hy, h⟩

theorem flags_of_aluOutput? {op : AluOp} {a b : Option Operand} {out : Alu.Output}
    (h : p.aluOutput? op a b = some out) : out.flags = .ofRaw out.raw := by
  obtain ⟨x, y, -, -, h⟩ := exists_eval?_of_aluOutput? h
  obtain ⟨raw, -, rfl⟩ := Option.map_eq_some_iff.1 h
  rfl

end Results

section Holds

variable {q : Processor}

theorem holds_register {r : Register} {w : Word} (h : q.registers.read r = w) :
    Place.Holds q w.toRaw (.operand (some (.register r))) := by
  subst h
  exact Word.toInt_toRaw _

theorem holds_primary {a : PrimaryCell} {w : Word} (h : q.memory.get a = w) :
    Place.Holds q w.toRaw (.primary (some a)) := by
  subst h
  exact Word.toInt_toRaw _

theorem holds_unitCell {u : VectorUnit} {a : UnitCell} {w : Word} (hu : q.unit = some u)
    (h : u.read a = w) : Place.Holds q w.toRaw (.unitCell (some a)) := by
  subst h
  exact ⟨u, hu, Word.toInt_toRaw _⟩

theorem holds_sp : Place.Holds q (Int64.ofNat q.sp.val) .sp := by
  have hsp := q.sp.isLt
  exact Int64.toInt_ofNat_of_lt (by omega)

theorem holds_pc {n : Nat} (h : q.pc = n) : Place.Holds q (Int64.ofNat n) .pc := by
  subst h
  exact rfl

end Holds

inductive Foretold (q : Processor) : List MicroOp → Prop where
  | writeback {description : String} {d : Place} {v : Int64} (h : d.Holds q v) :
      Foretold q [writeback description (some d) (some v)]
  | change {description : String} {source : Option Place} {d : Place} {v : Int64}
      {rest : List MicroOp} (h : d.Holds q v) (hr : Foretold q rest) :
      Foretold q (execute description source (some d) (some v) :: rest)
  | read {description : String} {source : Option Place} {v : Option Int64} {rest : List MicroOp}
      (hr : Foretold q rest) : Foretold q (execute description source none v :: rest)

theorem foretold_plan {p : Processor} {i : Instruction} {a : Action} (h : Resolved p i a)
    (hw : i.opcode.writesBack = true) (k : OpClass) :
    Foretold ({ p with flight := none }.performed p.pc k a) (p.plan i) := by
  cases h with
  | nop ho | hlt ho | gload ho | gstore ho | gexec ho | gwait ho =>
      rw [ho] at hw
      cases hw
  | @mov r w ho hr hw =>
      simp only [plan, ho, operand?_of_registerAt hr, valueAt_eq_ok_iff.1 hw, Option.map_some]
      exact .read (.writeback (holds_register (Registers.read_write_self _ _ _)))
  | @load r w ho hr hw =>
      simp only [plan, planLoad, ho, operand?_of_registerAt hr, valueAt_eq_ok_iff.1 hw,
        Option.map_some]
      exact .read (.read (.writeback (holds_register (Registers.read_write_self _ _ _))))
  | @store r c ho hr hc =>
      have hv := valueAt_eq_ok_iff.1 (valueAt_of_registerAt (p := p) hr)
      simp only [plan, planStore, ho, hv, cell_of_primaryAt hc, Option.map_some]
      exact .read (.read (.writeback (holds_primary (Vector.getElem_set_self _))))
  | @alu op r out ho hout =>
      obtain ⟨hr, hout⟩ := aluOutput?_of_resolveAlu hout
      rw [operand?_of_registerAt hr] at hout
      simp only [plan, planAlu, ho, hout, operand?_of_registerAt hr, Option.map_some,
        List.cons_append, List.nil_append]
      exact .read (.read (.writeback (holds_register (Registers.read_write_self _ _ _))))
  | @cmp r out ho hout =>
      obtain ⟨hr, hout⟩ := aluOutput?_of_resolveAlu hout
      simp only [plan, planAlu, ho, hout, Option.map_some, List.cons_append, List.nil_append]
      exact .read (.read (.writeback (flags_of_aluOutput? hout)))
  | @jmp target ho ht =>
      simp only [plan, ho, target?_of_targetAt ht, Option.map_some]
      exact .read (.writeback (holds_pc rfl))
  | @taken c target ho ht hc =>
      simp only [plan, planJump, ho, hc, target?_of_targetAt ht, Option.map_some, if_true]
      exact .read (.writeback (holds_pc rfl))
  | @notTaken c ho hc =>
      simp only [plan, planJump, ho, hc]
      exact .read (.writeback (holds_pc rfl))
  | @call target ho ht =>
      simp only [plan, planCall, ho, target?_of_targetAt ht, Option.map_some]
      exact .change (holds_primary (Vector.getElem_set_self _)) (.read (.writeback (holds_pc rfl)))
  | ret ho =>
      simp only [plan, planRet, ho, Word.toRaw_eq_ofNat]
      exact .read (.writeback (holds_pc rfl))
  | @push w ho hw =>
      simp only [plan, planPush, ho, valueAt_eq_ok_iff.1 hw, Option.map_some]
      exact .read (.change (holds_primary (Vector.getElem_set_self _)) (.writeback holds_sp))
  | @pop r ho hr =>
      simp only [plan, planPop, ho, operand?_of_registerAt hr]
      exact .change holds_sp (.read (.writeback (holds_register (Registers.read_write_self _ _ _))))
  | @gres u r ho hu hr =>
      simp only [plan, planResult, ho, hu, operand?_of_registerAt hr, Option.map_some]
      exact .read (.writeback (holds_register (Registers.read_write_self _ _ _)))
  | @gread u r c ho hu hr hc =>
      simp only [plan, planUnitRead, ho, hu, operand?_of_registerAt hr, cell_of_unitCellAt hc,
        Option.map_some, Option.bind_some]
      exact .read (.writeback (holds_register (Registers.read_write_self _ _ _)))
  | @gwrite u c w ho hu hc hw =>
      simp only [plan, planUnitWrite, ho, cell_of_unitCellAt hc, valueAt_eq_ok_iff.1 hw,
        Option.map_some]
      have hunit := unit_effect (p := { p with flight := none }) hu p.pc (.poke c w)
      exact .read (.writeback (holds_unitCell hunit (Vector.getElem_set_self _)))

theorem Foretold.foretells {q : Processor} {ms : List MicroOp} (h : Foretold q ms) :
    ∀ m ∈ ms, m.Foretells q := by
  induction h with
  | writeback h => exact List.forall_mem_singleton.2 (.shown h)
  | change h hr ih => exact List.forall_mem_cons.2 ⟨.shown h, ih⟩
  | read hr ih => exact List.forall_mem_cons.2 ⟨.of_destination_none rfl, ih⟩

theorem Foretold.writesBack {q : Processor} {ms : List MicroOp} (h : Foretold q ms) :
    ∃ m d v, (ms.filter fun m => m.stage = .writeback) = [m] ∧ m.destination = some d ∧
      m.value = some v := by
  induction h with
  | @writeback description d v h => exact ⟨_, d, v, rfl, rfl, rfl⟩
  | change h hr ih => exact ih
  | read hr ih => exact ih

theorem batchCount_le (len lanes : Nat) : batchCount len lanes ≤ len := by
  rcases Nat.eq_zero_or_pos lanes with rfl | h
  · simp [batchCount]
  · rw [batchCount_eq_ceilDiv h, ceilDiv_le_iff_le_smul h]
    exact Nat.le_mul_of_pos_left len h

theorem holds_batches {p : Processor} {u busy : VectorUnit} {job : Job} (hu : p.unit = some u)
    (hs : u.start job = .ok busy) (hl : job.len < 65536) (pc : Nat) (k : OpClass) :
    Place.Holds (p.performed pc k (.launch job)) (Int64.ofNat (job.batches u.width)) .unit := by
  have hb : launched u job = { u with work := .queued job } := by
    simp only [launched, hs]
    rw [VectorUnit.start_eq] at hs
    cases hw : u.work.job? with
    | none =>
        rw [hw] at hs
        cases hs
        rfl
    | some current =>
        rw [hw] at hs
        cases hs
  have hle := batchCount_le job.len u.width
  refine ⟨launched u job, job, unit_effect hu pc (.launch job), ?_, ?_⟩
  · rw [hb]
  · rw [hb]
    exact Int64.toInt_ofNat_of_lt (by simp only [Job.batches]; omega)

theorem plan_foretells {p : Processor} {i : Instruction} {a : Action} (h : Resolved p i a)
    (hl : i.opcode ≠ .gload) (hs : i.opcode ≠ .gstore) (k : OpClass) :
    ∀ m ∈ p.plan i, m.Foretells ({ p with flight := none }.performed p.pc k a) := by
  by_cases hw : i.opcode.writesBack = true
  · exact (foretold_plan h hw k).foretells
  · cases h with
    | nop ho | hlt ho | gwait ho =>
        simp only [plan, ho, List.forall_mem_cons]
        exact ⟨.of_value_none rfl, .of_value_none rfl, List.forall_mem_nil _⟩
    | gload ho => exact absurd ho hl
    | gstore ho => exact absurd ho hs
    | @gexec u busy op src dst len scalar ho hu hlen hstart =>
        have hb := holds_batches (p := { p with flight := none }) hu hstart len.toNat_lt p.pc k
        generalize { p with flight := none }.performed p.pc k _ = q at hb ⊢
        simp only [plan, planLaunch, ho, hu, valueAt_eq_ok_iff.1 hlen, Option.map_some,
          Option.getD_some, List.forall_mem_cons]
        exact ⟨.shown hb, .of_value_none rfl, List.forall_mem_nil _⟩
    | _ ho =>
        rw [ho] at hw
        exact absurd rfl hw

theorem target_lt {p : Processor} {i : Instruction} {position target : Nat}
    (hlabels : ∀ name index, p.program.label? name = some index → index < 2 ^ 63)
    (h : i.targetAt p position = .ok target) : target < 2 ^ 63 := by
  obtain ⟨o, -, h⟩ := exists_of_bind_eq_ok h
  have hword (w : Word) : w.toNat < 2 ^ 63 := Nat.lt_trans w.toNat_lt (by decide)
  cases o with
  | register r =>
      cases h
      exact hword _
  | immediate v =>
      cases h
      exact hword _
  | label name =>
      simp only [Processor.target] at h
      split at h
      · rename_i index hi
        cases h
        exact hlabels name target hi
      · cases h
  | vectorOp op => cases h

theorem pc_performed_lt {p : Processor} {i : Instruction} {a : Action} (h : Resolved p i a)
    (hlabels : ∀ name index, p.program.label? name = some index → index < 2 ^ 63)
    (hpc : p.pc + 1 < 2 ^ 63) (k : OpClass) :
    ({ p with flight := none }.performed p.pc k a).pc < 2 ^ 63 := by
  cases h with
  | hlt => exact Nat.lt_of_succ_lt hpc
  | jmp ho ht | taken ho ht | call ho ht => exact target_lt hlabels ht
  | ret => exact Nat.lt_trans p.top.toNat_lt (by decide)
  | _ => exact hpc

theorem value_of_cmp {p : Processor} {i : Instruction} {a : Action} (h : Resolved p i a)
    (ho : i.opcode = .cmp) :
    ∃ x y, i.valueAt p 0 = .ok x ∧ i.valueAt p 1 = .ok y ∧
      ∀ m ∈ p.plan i, ∀ v, m.value = some v → m.destination = some .flags →
        v.toInt = x.toNat - y.toNat := by
  cases h with
  | @cmp r out _ hout =>
      obtain ⟨-, hshown⟩ := aluOutput?_of_resolveAlu hout
      obtain ⟨x, y, hx, hy, he⟩ := exists_eval?_of_aluOutput? hshown
      obtain rfl := Option.some.inj he
      refine ⟨x, y, valueAt_eq_ok_iff.2 hx, valueAt_eq_ok_iff.2 (hy rfl), ?_⟩
      simp only [plan, planAlu, ho, hshown, Option.map_some, List.cons_append, List.nil_append,
        List.forall_mem_cons]
      refine ⟨?_, ?_, ?_, List.forall_mem_nil _⟩
      · intro v _ hd
        cases hd
      · intro v _ hd
        cases hd
      · intro v hv _
        cases hv
        exact Word.toInt_toRaw_sub x y
  | _ ho' => cases ho'.symm.trans ho

theorem shown_of_gexec {p : Processor} {i : Instruction} {a : Action} (h : Resolved p i a)
    (ho : i.opcode = .gexec) :
    ∃ m ∈ p.plan i, ∃ v, m.value = some v ∧ m.destination = some .unit := by
  cases h with
  | @gexec u busy op src dst len scalar _ hu hlen =>
      simp only [plan, planLaunch, ho, valueAt_eq_ok_iff.1 hlen, Option.map_some]
      exact ⟨_, List.mem_cons_self, _, rfl, rfl⟩
  | _ ho' => cases ho'.symm.trans ho

theorem plan_foretells_commit (p : Processor) (i : Instruction)
    (hlabels : ∀ name index, p.program.label? name = some index → index < 2 ^ 63)
    (hcommits : ∀ f, (p.commit p.pc i).result ≠ .faulted f) :
    let q := (p.commit p.pc i).next
    (i.opcode ≠ .gload → i.opcode ≠ .gstore →
      ∀ m ∈ p.plan i, ∀ v d, m.value = some v → m.destination = some d →
        d.Holds q v ∧ (d = .pc → p.pc + 1 < 2 ^ 63 → v.toInt = q.pc)) ∧
    (i.opcode = .cmp → ∃ x y, i.valueAt p 0 = .ok x ∧ i.valueAt p 1 = .ok y ∧
      ∀ m ∈ p.plan i, ∀ v, m.value = some v → m.destination = some .flags →
        v.toInt = x.toNat - y.toNat) ∧
    (i.opcode = .gexec → ∃ m ∈ p.plan i, ∃ v, m.value = some v ∧ m.destination = some .unit) ∧
    (i.opcode ∉ [.nop, .hlt, .gload, .gstore, .gexec, .gwait] →
      ∃ m v d, (p.plan i).filter (fun m => m.stage = .writeback) = [m] ∧
        m.value = some v ∧ m.destination = some d) := by
  intro q
  cases hr : p.resolve i with
  | error f => exact absurd ((result_commit_eq_faulted_iff _ _).2 hr) (hcommits f)
  | ok a =>
      have h := resolved_of_resolve hr
      have hq : q = { p with flight := none }.performed p.pc i.opcode.opClass a :=
        next_commit _ _ _ hr
      rw [hq]
      refine ⟨?_, value_of_cmp h, shown_of_gexec h, ?_⟩
      · intro hl hs m hm v d hv hd
        have hholds := plan_foretells h hl hs i.opcode.opClass m hm v d hv hd
        refine ⟨hholds, ?_⟩
        rintro rfl hpc
        rw [hholds]
        exact Int64.toInt_ofNat_of_lt (pc_performed_lt h hlabels hpc i.opcode.opClass)
      · intro ho
        have hw : i.opcode.writesBack = true := by
          cases hop : i.opcode <;> simp [hop, Opcode.writesBack] at ho ⊢
        obtain ⟨m, d, v, hm, hd, hv⟩ := (foretold_plan h hw i.opcode.opClass).writesBack
        exact ⟨m, v, d, hm, hv, hd⟩

def calling : Processor :=
  let program : Program :=
    .ofParts ["CALL square", "HLT", "MUL R0, R0", "RET"] (.insert .empty "square" 2) []
  ((new {}).load program).1

def callSquare : Instruction := ⟨.call, [.label "square"]⟩

theorem plan_foretells_commit_calling :
    calling.program.instruction? calling.pc = some callSquare.text ∧
    Instruction.decode callSquare.text = .ok callSquare ∧
    (∀ name index, calling.program.label? name = some index → index < 2 ^ 63) ∧
    (∀ f, (calling.commit calling.pc callSquare).result ≠ .faulted f) ∧
    (∃ m v, (calling.plan callSquare).filter (fun m => m.stage = .writeback) = [m] ∧
      m.value = some v) ∧
    ∀ m ∈ calling.plan callSquare, ∀ v, m.value = some v → m.destination = some .pc →
      v.toInt = 2 := by
  have hlabels (name : String) (index : Nat) (h : calling.program.label? name = some index) :
      index < 2 ^ 63 := by
    have hfind : (NameMap.insert .empty "square" 2).find? name = some index := h
    rw [NameMap.find?_insert] at hfind
    split at hfind <;> cases hfind
    decide
  have hresult : (calling.commit calling.pc callSquare).result = .committed := by decide +kernel
  have hcommits (f : Fault) : (calling.commit calling.pc callSquare).result ≠ .faulted f := by
    rw [hresult]
    exact Progress.noConfusion
  have hnext : (calling.commit calling.pc callSquare).next.pc = 2 := by decide +kernel
  obtain ⟨hshown, -, -, hlast⟩ := plan_foretells_commit calling callSquare hlabels hcommits
  obtain ⟨m, v, -, hm, hv, -⟩ := hlast (by decide)
  refine ⟨rfl, by decide +kernel, hlabels, hcommits, ⟨m, v, hm, hv⟩, ?_⟩
  intro m hm v hv hd
  have hpc := (hshown (by decide) (by decide) m hm v .pc hv hd).2 rfl (by decide)
  rw [hpc, hnext]
  rfl

end Processor

end VectorMachine
