import VectorMachine.Proofs.Assembly.JumpTargets
import VectorMachine.Proofs.Processor.FaultCauses
import VectorMachine.Proofs.Processor.Interleaving

namespace VectorMachine

namespace Processor

open Assembly
open Instruction (tokens decode)

def takes (p : Processor) : Opcode → Bool
  | .jmp | .call => true
  | .jumpIf c => p.flags.satisfies c
  | _ => false

section Commit

variable {p : Processor} {i : Instruction} {a : Action} {pc : Nat}

theorem pc_next_commit (h : p.resolve i = .ok a) :
    (p.commit pc i).next.pc = p.nextPc pc a := by
  rw [next_commit _ _ _ h]
  cases a <;> rfl

theorem resolve_of_targetAt {target : Nat} (hop : i.opcode.controlTransfer = true)
    (ht : i.targetAt p 0 = .ok target) : ∃ a, p.resolve i = .ok a ∧ a.halts = false ∧
      (p.takes i.opcode = true → ∀ pc, p.nextPc pc a = target) := by
  cases ho : i.opcode with
  | jmp =>
      refine ⟨.jump target, ?_, rfl, fun _ _ => rfl⟩
      simp only [resolve, ho, ht]
      rfl
  | call =>
      refine ⟨.call target, ?_, rfl, fun _ _ => rfl⟩
      simp only [resolve, ho, ht]
      rfl
  | jumpIf c =>
      cases hc : p.flags.satisfies c with
      | true =>
          refine ⟨.jump target, ?_, rfl, fun _ _ => rfl⟩
          simp only [resolve, ho, ht]
          change Except.ok _ = _
          rw [if_pos hc]
      | false =>
          refine ⟨.proceed, ?_, rfl, fun h => absurd (hc.symm.trans h) Bool.false_ne_true⟩
          simp only [resolve, ho, ht]
          change Except.ok _ = _
          rw [if_neg (Bool.eq_false_iff.1 hc)]
  | _ =>
      rw [ho] at hop
      cases hop

end Commit

section Assembled

variable {source : String} {p : Program} {n : Nat} {text mnemonic : String} {args : List String}
  {op : Opcode}

theorem resolve_of_assemble (h : assemble source = .ok p) (ht : p.instruction? n = some text)
    (htokens : tokens text = mnemonic :: args) (hop : Spells mnemonic op.mnemonic)
    (hclass : op.opClass = .control) {q : Processor} (hq : q.program = p) :
    ∃ i a, decode text = .ok i ∧ i.opcode = op ∧ q.resolve i = .ok a ∧ a.halts = false ∧
      ∀ name, i.operand? 0 = some (.label name) → q.takes op = true →
        ∃ index, index ≤ p.size ∧ p.label? name = some index ∧ ∀ pc, q.nextPc pc a = index := by
  by_cases hret : op = .ret
  · subst hret
    have hcount := accepts_of_assemble h ht htokens hop
    obtain rfl : args = [] := by
      rw [Opcode.arity, Arity.accepts, beq_iff_eq] at hcount
      exact List.length_eq_zero_iff.1 hcount
    refine ⟨⟨.ret, []⟩, .ret, decode_of_accepts htokens hop hcount, rfl, rfl, rfl, ?_⟩
    intro name hname
    cases hname
  · have htransfer : op.controlTransfer = true := by
      cases op <;> first | rfl | exact absurd rfl hret | cases hclass
    obtain ⟨token, o, rfl, hdecode, htargets⟩ := targets_of_assemble h ht htokens hop htransfer
    obtain ⟨target, htarget⟩ := htargets.exists_target hq
    obtain ⟨a, ha, hhalts, hpc⟩ :=
      resolve_of_targetAt (i := ⟨op, [o]⟩) htransfer htarget
    refine ⟨_, a, hdecode, rfl, ha, hhalts, ?_⟩
    intro name hname htakes
    obtain rfl : o = .label name := Option.some.inj hname
    cases htargets with
    | label hreg hl =>
        obtain rfl := Except.ok.inj (htarget.symm.trans (target_label hl hq))
        obtain ⟨-, rfl⟩ := assemble_eq_ok_iff.1 h
        exact ⟨_, label?_le_size hl, hl, hpc htakes⟩

theorem control_transfers_commit (h : assemble source = .ok p) {q : Processor}
    (hq : q.program = p) (hr : q.halted = false) (hfit : q.FlightFits)
    (ht : p.instruction? q.pc = some text) (htokens : tokens text = mnemonic :: args)
    (hop : Spells mnemonic op.mnemonic) (hclass : op.opClass = .control) :
    q.step.result = .committed ∧
    (∃ stages : List Stage, stages.length < 5 ∧
      q.results (List.replicate (stages.length + 1) .micro) =
        stages.map .advanced ++ [.committed] ∧
      (q.after (List.replicate (stages.length + 1) .micro)).bare = q.step.next.bare) ∧
    ∃ i, decode text = .ok i ∧ i.opcode = op ∧
      ∀ name, i.operand? 0 = some (.label name) → q.takes op = true →
        ∃ index, index ≤ p.size ∧ p.label? name = some index ∧ q.step.next.pc = index := by
  obtain ⟨i, a, hi, hopcode, ha, hhalts, hlabel⟩ :=
    resolve_of_assemble h ht htokens hop hclass hq
  obtain ⟨pc, hstep⟩ := exists_step_eq_commit hfit hr (hq ▸ ht) hi
  have hresult : q.step.result = .committed := by
    rw [hstep]
    exact result_commit_eq_committed hr ha hhalts
  refine ⟨hresult, ?_, i, hi, hopcode, ?_⟩
  · obtain ⟨stages, hlen, hresults, hafter⟩ := exists_replays hfit
    rw [hresult] at hresults
    exact ⟨stages, Nat.lt_of_lt_of_le hlen (distance_le hfit), hresults, hafter⟩
  · intro name hname htakes
    obtain ⟨index, hle, hindex, hpc⟩ := hlabel name hname htakes
    refine ⟨index, hle, hindex, ?_⟩
    rw [hstep, pc_next_commit ha]
    exact hpc pc

end Assembled

def branching : String := "JZ done\nCALL done\ndone: RET"

def branchingProgram : Program :=
  .ofParts ["JZ done", "CALL done", "RET"] (.ofList [("done", 2)]) [1, 2, 3]

def atBranch : Processor :=
  { new {} with program := branchingProgram, flags := ⟨true, false, false⟩ }

theorem control_transfers_commit_branching :
    assemble branching = .ok branchingProgram ∧ atBranch.halted = false ∧ atBranch.FlightFits ∧
      atBranch.step.result = .committed ∧
      (∃ stages : List Stage, stages.length < 5 ∧
        atBranch.results (List.replicate (stages.length + 1) .micro) =
          stages.map .advanced ++ [.committed]) ∧
      atBranch.step.next.pc = 2 := by
  have h : assemble branching = .ok branchingProgram := rfl
  have hfit : atBranch.FlightFits := flightFits_of_none rfl
  have htext : branchingProgram.instruction? atBranch.pc = some "JZ done" := rfl
  have htokens : tokens "JZ done" = ["JZ", "done"] := rfl
  have hop : Spells "JZ" (Opcode.jumpIf .zero).mnemonic := rfl
  obtain ⟨hresult, ⟨stages, hlen, hresults, -⟩, i, hi, -, hlabel⟩ :=
    control_transfers_commit h rfl rfl hfit htext htokens hop rfl
  have hdecode : decode "JZ done" = .ok ⟨.jumpIf .zero, [.label "done"]⟩ := rfl
  obtain rfl := Except.ok.inj (hdecode.symm.trans hi)
  obtain ⟨index, -, hindex, hpc⟩ := hlabel "done" rfl rfl
  obtain rfl : 2 = index := Option.some.inj hindex
  exact ⟨h, rfl, hfit, hresult, ⟨stages, hlen, hresults⟩, hpc⟩

end Processor

end VectorMachine
