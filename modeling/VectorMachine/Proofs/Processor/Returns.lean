import VectorMachine.Proofs.Processor.Stack

namespace VectorMachine

def Action.stackOp? (pc : Nat) : Action → Option StackOp
  | .call _ => some (.push (UInt16.ofNat (pc + 1)))
  | .push w => some (.push w)
  | .pop _ | .ret => some .pop
  | _ => none

def Instruction.stackOp? (i : Instruction) (p : Processor) : Option StackOp :=
  match i.opcode with
  | .call => some (.push (UInt16.ofNat (p.pc + 1)))
  | .push => (i.valueAt p 0).toOption.map .push
  | .pop | .ret => some .pop
  | _ => none

namespace Processor

def stackOp? (p : Processor) : Option StackOp :=
  p.current?.bind fun i => i.stackOp? p

def stackOpsOf (p : Processor) (pace : Pace) : List StackOp :=
  if (p.advance pace).result = .committed then p.stackOp?.toList else []

def stackOps (p : Processor) : List Pace → List StackOp
  | [] => []
  | pace :: rest => p.stackOpsOf pace ++ (p.advance pace).next.stackOps rest

def keepsMemory (p : Processor) : List Pace → Bool
  | [] => true
  | pace :: rest =>
      (decide ((p.advance pace).result ≠ .committed) || p.stackOp?.isSome ||
        decide ((p.advance pace).next.memory = p.memory)) && (p.advance pace).next.keepsMemory rest

open StackOp in
structure Encloses (p : Processor) (call : Pace) (paces : List Pace) (ret : Pace) : Prop where
  is_call : p.current?.map Instruction.opcode = some .call
  call_commits : (p.advance call).result = .committed
  closed : Closed ((p.advance call).next.stackOps paces)
  room : ∀ before, before <+: (p.advance call).next.stackOps paces →
    pushes before + 1 ≤ pops before + 256
  keeps : (p.advance call).next.keepsMemory paces = true
  is_ret : (p.after (call :: paces)).current?.map Instruction.opcode = some .ret
  ret_commits : ((p.after (call :: paces)).advance ret).result = .committed

section Step

variable {p : Processor} {i : Instruction} {a : Action} {pace : Pace} {words : List Word}

theorem Resolved.stackOp?_eq (h : Resolved p i a) : i.stackOp? p = a.stackOp? p.pc := by
  rw [Instruction.stackOp?]
  cases h with
  | push ho hw =>
      rw [ho]
      simp only [hw]
      rfl
  | gexec ho | nop ho | hlt ho | mov ho | load ho | store ho | alu ho | cmp ho | jmp ho | taken ho
  | notTaken ho | call ho | ret ho | pop ho | gload ho | gstore ho | gwait ho | gres ho
  | gread ho | gwrite ho =>
      rw [ho]
      rfl

theorem effect_of_stackOp? {pc : Nat} {op : StackOp} (h : a.stackOp? pc = some op) :
    (p.effect pc a).1.memory = (p.stackStep op).memory ∧
      (p.effect pc a).1.sp = (p.stackStep op).sp := by
  cases a with
  | call | push | pop | ret =>
      cases h
      exact ⟨rfl, rfl⟩
  | _ => cases h

theorem sp_of_stackOp?_eq_none {pc : Nat} (h : a.stackOp? pc = none) :
    (p.effect pc a).1.sp = p.sp := by
  have hshift : a.stackShift = 0 := by
    cases a with
    | call | push | pop | ret => cases h
    | _ => rfl
  have hsp := sp_effect p pc a
  have hlt := p.sp.isLt
  rw [hshift] at hsp
  apply Fin.ext
  omega

theorem stackOp?_of_commits (h : Commits p pace i a) : p.stackOp? = a.stackOp? p.pc := by
  rw [stackOp?, h.current, Option.bind_some, (resolved_of_resolve h.resolve).stackOp?_eq]

theorem stacks_of_commits (h : Commits p pace i a) (hs : Stacks p words)
    (hroom : (p.stackOp?.toList.foldl StackOp.act words).length ≤ 256)
    (hkeep : p.stackOp? = none → (p.advance pace).next.memory = p.memory) :
    Stacks (p.advance pace).next (p.stackOp?.toList.foldl StackOp.act words) := by
  let landed : Processor := { p with flight := none }
  have hop := stackOp?_of_commits h
  have hm : (p.advance pace).next.memory = (landed.effect p.pc a).1.memory :=
    congrArg (fun q => q.memory) h.next
  have hsp : (p.advance pace).next.sp = (landed.effect p.pc a).1.sp :=
    congrArg (fun q => q.sp) h.next
  cases ho : p.stackOp? with
  | none =>
      have hstay := sp_of_stackOp?_eq_none (p := landed) (hop.symm.trans ho)
      exact hs.congr (hkeep ho) (hsp.trans hstay)
  | some op =>
      obtain ⟨hmemory, hshift⟩ := effect_of_stackOp? (p := landed) (hop.symm.trans ho)
      rw [ho] at hroom
      have hlanded : Stacks landed words := hs.congr rfl rfl
      exact (hlanded.step hroom).congr (hm.trans hmemory) (hsp.trans hshift)

theorem stacks_advance (hfit : p.FlightFits) (hs : Stacks p words)
    (hroom : ((p.stackOpsOf pace).foldl StackOp.act words).length ≤ 256)
    (hkeep : (p.advance pace).result = .committed → p.stackOp? = none →
      (p.advance pace).next.memory = p.memory) :
    Stacks (p.advance pace).next ((p.stackOpsOf pace).foldl StackOp.act words) := by
  rw [stackOpsOf] at hroom ⊢
  by_cases hc : (p.advance pace).result = .committed
  · rw [if_pos hc] at hroom ⊢
    obtain ⟨i, a, hcommits⟩ := commits_of_committed hfit hc
    exact stacks_of_commits hcommits hs hroom (hkeep hc)
  · have hrests : Rests p (p.advance pace).next := rests_of_not_committed hfit hc
    rw [if_neg hc]
    exact hs.congr (congrArg (fun q => q.memory) hrests) (congrArg (fun q => q.sp) hrests)

theorem stacks_after (hfit : p.FlightFits) (hs : Stacks p words) (paces : List Pace)
    (hroom : ∀ before, before <+: p.stackOps paces →
      (before.foldl StackOp.act words).length ≤ 256)
    (hkeep : p.keepsMemory paces = true) :
    Stacks (p.after paces) ((p.stackOps paces).foldl StackOp.act words) := by
  induction paces generalizing p words with
  | nil => exact hs
  | cons pace rest ih =>
      rw [keepsMemory, Bool.and_eq_true] at hkeep
      rw [stackOps] at hroom ⊢
      rw [List.foldl_append]
      refine ih (flightFits_advance hfit pace) ?_ ?_ hkeep.2
      · refine stacks_advance hfit hs (hroom _ (List.prefix_append _ _)) ?_
        intro hc hnone
        simpa [hc, hnone] using hkeep.1
      · intro before hb
        rw [← List.foldl_append]
        exact hroom _ ((List.prefix_append_right_inj _).2 hb)

end Step

theorem stacks_of_call {p : Processor} {call : Pace} (hfit : p.FlightFits)
    (hop : p.current?.map Instruction.opcode = some .call)
    (hc : (p.advance call).result = .committed) :
    Stacks (p.advance call).next [UInt16.ofNat (p.pc + 1)] := by
  obtain ⟨i, a, h, ho⟩ := exists_commits hfit hop hc
  have hpush : p.stackOp? = some (.push (UInt16.ofNat (p.pc + 1))) := by
    rw [stackOp?, h.current, Option.bind_some, Instruction.stackOp?, ho]
  have hs := stacks_of_commits h (stacks_nil p)
  rw [hpush] at hs
  exact hs (show 1 ≤ 256 by decide) fun hnone => by cases hnone

theorem pc_of_ret {p : Processor} {ret : Pace} (hfit : p.FlightFits)
    (hop : p.current?.map Instruction.opcode = some .ret)
    (hc : (p.advance ret).result = .committed) : (p.advance ret).next.pc = p.top.toNat := by
  obtain ⟨i, a, h, ho⟩ := exists_commits hfit hop hc
  have hret : p.resolve i = .ok .ret := by simp only [resolve, ho]
  obtain rfl := Except.ok.inj (h.resolve.symm.trans hret)
  exact pc_of_commits h

theorem Encloses.returns {p : Processor} {call ret : Pace} {paces : List Pace}
    (h : Encloses p call paces ret) (hfit : p.FlightFits) (hpc : p.pc + 1 ≤ 65535) :
    ((p.after (call :: paces)).advance ret).next.pc = p.pc + 1 := by
  have hnext := flightFits_advance hfit call
  have hroom (before : List StackOp) (hb : before <+: (p.advance call).next.stackOps paces) :
      (before.foldl StackOp.act [UInt16.ofNat (p.pc + 1)]).length ≤ 256 := by
    have hgrounded := h.closed.1.before hb
    have hlen := StackOp.length_outstanding hgrounded
    have hle := h.room before hb
    rw [StackOp.foldl_act hgrounded, List.length_append, List.length_singleton]
    omega
  have hs := stacks_after hnext (stacks_of_call hfit h.is_call h.call_commits) paces hroom h.keeps
  rw [h.closed.foldl_act_eq] at hs
  have htop : (p.after (call :: paces)).top = UInt16.ofNat (p.pc + 1) := hs.top_eq
  rw [pc_of_ret (flightFits_after hfit _) h.is_ret h.ret_commits, htop]
  exact UInt16.toNat_ofNat_of_lt (Nat.lt_succ_of_le hpc)

open StackOp in
theorem stack_is_last_in_first_out :
    (∀ (p : Processor) (ops : List StackOp), Grounded ops → Within 256 ops →
      (∀ before, before <+: ops → Refines p before) ∧
      ∀ front rest, ops = front ++ .pop :: rest →
        (∃ before w between, front = before ++ .push w :: between ∧ Closed between) ∧
        ∀ before w between, front = before ++ .push w :: between → Closed between →
          (p.stacked front).top = w) ∧
    ∀ (p : Processor) (call : Pace) (paces : List Pace) (ret : Pace), Reachable p →
      p.pc + 1 ≤ 65535 → Encloses p call paces ret →
      ((p.after (call :: paces)).advance ret).next.pc = p.pc + 1 := by
  refine ⟨fun p ops h hw => ⟨fun before hb => refines p (h.before hb) (hw.before hb), ?_⟩,
    fun p call paces ret hp hpc henc => henc.returns hp.flightFits hpc⟩
  rintro front rest rfl
  have hpop : front ++ [.pop] <+: front ++ .pop :: rest :=
    (List.prefix_append_right_inj front).2 (List.prefix_append [.pop] rest)
  have hfront := h.before (List.prefix_append front _)
  have hwithin := hw.before (List.prefix_append front _)
  refine ⟨exists_open_push hfront ?_,
    fun before w between hf hb => top_stacked hfront hwithin hf hb⟩
  have hcount := h _ hpop
  rw [pops_append, pushes_append] at hcount
  exact hcount

def nesting : Processor :=
  let program := ["POP R0", "CALL 3", "HLT", "PUSH 9", "CALL 7", "POP R2", "RET", "RET"]
  (new {}).served [.load (.ofInstructions program), .call .whole]

def nested : List Pace :=
  [.whole, .micro, .micro, .micro, .micro, .micro, .whole, .micro, .whole]

open StackOp in
theorem stack_is_last_in_first_out_nesting :
    (nesting.stacked [.push 5, .push 6, .pop]).top = 5 ∧ Reachable nesting ∧ nesting.pc = 1 ∧
      nesting.sp.val = 0 ∧ Encloses nesting .whole nested .whole ∧
      ((nesting.after (.whole :: nested)).advance .whole).next.pc = 2 := by
  obtain ⟨hlist, hreturns⟩ := stack_is_last_in_first_out
  have hfirst := hlist nesting [.push 5, .push 6, .pop, .pop] (by decide) (by decide)
  have htop := (hfirst.2 [.push 5, .push 6, .pop] [] rfl).2 [] 5 [.push 6, .pop] rfl (by decide)
  have hp : Reachable nesting := ⟨{}, _, rfl⟩
  have hroom : Within 255 ((nesting.advance .whole).next.stackOps nested) := by decide +kernel
  have hencloses : Encloses nesting .whole nested .whole := by
    refine ⟨?_, ?_, ?_, fun before hb => Nat.succ_le_succ (hroom before hb), ?_, ?_, ?_⟩ <;>
      decide +kernel
  exact ⟨htop, hp, rfl, rfl, hencloses,
    hreturns nesting .whole nested .whole hp (by decide) hencloses⟩

end Processor

end VectorMachine
