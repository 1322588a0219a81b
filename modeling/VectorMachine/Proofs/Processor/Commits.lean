import VectorMachine.Proofs.Processor.CallEvents
import VectorMachine.Proofs.Processor.Interleaving

namespace VectorMachine.Processor

section Current

variable {p : Processor} {i : Instruction}

theorem exists_text_of_current (h : p.current? = some i) : p.halted = false ∧
    ∃ text, p.program.instruction? p.pc = some text ∧ Instruction.decode text = .ok i := by
  cases hh : p.halted with
  | true => simp [current?, hh] at h
  | false =>
      simp only [current?, hh, Bool.false_eq_true, if_false] at h
      obtain ⟨text, ht, hd⟩ := Option.bind_eq_some_iff.1 h
      refine ⟨rfl, text, ht, ?_⟩
      cases hi : Instruction.decode text with
      | error e =>
          rw [hi] at hd
          cases hd
      | ok j =>
          rw [hi] at hd
          cases hd
          rfl

theorem step_eq_commit (hfit : p.FlightFits) (h : p.current? = some i) :
    p.step = p.commit p.pc i := by
  obtain ⟨hr, text, ht, hd⟩ := exists_text_of_current h
  have hcommit : p.commitText p.pc text = p.commit p.pc i := by
    simp only [commitText, hd]
  simp only [step, if_neg (Bool.eq_false_iff.1 hr)]
  cases hf : p.flight with
  | none =>
      simp only [ht]
      exact hcommit
  | some flight =>
      have hfits := hfit _ hf
      have htext : flight.text = text := Option.some.inj (hfits.text_eq.symm.trans ht)
      cases flight with
      | undecoded pc text' plan stage =>
          obtain rfl : pc = p.pc := hfits.pc_eq
          obtain rfl : text' = text := htext
          exact hcommit
      | decoded pc text' j plan stage =>
          obtain rfl : pc = p.pc := hfits.pc_eq
          obtain rfl : j = i := Option.some.inj ((current?_of_decoded hfits).symm.trans h)
          rfl

theorem step_of_current_none (hfit : p.FlightFits) (h : p.current? = none) :
    p.step = ⟨.halted, p, []⟩ ∨ p.step = p.runOut ∨ ∃ f, p.step = p.fail f := by
  have hundecoded {text : String} (pc : Nat) (hd : (Instruction.decode text).toOption = none) :
      ∃ f, p.commitText pc text = p.fail f := by
    cases hi : Instruction.decode text with
    | error e => exact ⟨.undecodable e, by simp only [commitText, hi]⟩
    | ok i =>
        rw [hi] at hd
        cases hd
  simp only [step]
  cases hh : p.halted with
  | true => exact .inl rfl
  | false =>
      refine .inr ?_
      simp only [Bool.false_eq_true, if_false]
      cases hf : p.flight with
      | none =>
          cases ht : p.program.instruction? p.pc with
          | none => exact .inl rfl
          | some text => exact .inr (hundecoded _ ((current?_of_text hh ht).symm.trans h))
      | some flight =>
          have hfits := hfit _ hf
          cases flight with
          | undecoded pc text plan stage =>
              exact .inr (hundecoded _ ((current?_of_fits hfits).symm.trans h))
          | decoded pc text i plan stage => cases (current?_of_decoded hfits).symm.trans h

end Current

def afterAction (p : Processor) (i : Instruction) (a : Action) : Processor :=
  { p with flight := none }.performed p.pc i.opcode.opClass a

structure Commits (p : Processor) (pace : Pace) (i : Instruction) (a : Action) : Prop where
  current : p.current? = some i
  resolve : p.resolve i = .ok a
  next : (p.advance pace).next.bare = (p.afterAction i a).bare

def Rests (p q : Processor) : Prop :=
  q = { p with
    halted := q.halted
    flight := q.flight
    lastFault := q.lastFault
    counters := q.counters }

section Calls

variable {p : Processor} {pace : Pace} {i : Instruction}

theorem result_of_not_advanced (hfit : p.FlightFits) (hi : p.current? = some i)
    (h : (p.advance pace).result.isAdvanced = false) :
    (p.advance pace).result = (p.commit p.pc i).result := by
  rw [(step_of_not_advanced hfit hfit rfl h).1, step_eq_commit hfit hi]

theorem commits_of_current (hfit : p.FlightFits) (hi : p.current? = some i)
    (hadvanced : (p.advance pace).result.isAdvanced = false)
    (hfault : ∀ f, (p.advance pace).result ≠ .faulted f) : ∃ a, Commits p pace i a := by
  have hnext := (step_of_not_advanced hfit hfit rfl hadvanced).2
  cases ha : p.resolve i with
  | error f =>
      refine absurd ?_ (hfault f)
      rw [result_of_not_advanced hfit hi hadvanced]
      exact (result_commit_eq_faulted_iff p p.pc).2 ha
  | ok a =>
      rw [step_eq_commit hfit hi, next_commit p p.pc a ha] at hnext
      exact ⟨a, hi, ha, hnext⟩

theorem commits_of_committed (hfit : p.FlightFits) (h : (p.advance pace).result = .committed) :
    ∃ i a, Commits p pace i a := by
  have hadvanced : (p.advance pace).result.isAdvanced = false := by
    rw [h]
    rfl
  cases hi : p.current? with
  | some i =>
      have hfault (f : Fault) : (p.advance pace).result ≠ .faulted f := by
        rw [h]
        exact Progress.noConfusion
      obtain ⟨a, ha⟩ := commits_of_current hfit hi hadvanced hfault
      exact ⟨i, a, ha⟩
  | none =>
      obtain ⟨hresult, -⟩ := step_of_not_advanced hfit hfit rfl hadvanced
      rw [h] at hresult
      rcases step_of_current_none hfit hi with hs | hs | ⟨f, hs⟩ <;>
        rw [hs] at hresult <;> cases hresult

theorem exists_commits {op : Opcode} (hfit : p.FlightFits)
    (hop : p.current?.map Instruction.opcode = some op)
    (hc : (p.advance pace).result = .committed) :
    ∃ i a, Commits p pace i a ∧ i.opcode = op := by
  obtain ⟨i, a, h⟩ := commits_of_committed hfit hc
  rw [h.current] at hop
  exact ⟨i, a, h, Option.some.inj hop⟩

theorem pc_of_commits {a : Action} (h : Commits p pace i a) :
    (p.advance pace).next.pc = p.nextPc p.pc a :=
  congrArg (fun q => q.pc) h.next

end Calls

section Rest

variable {p q : Processor} {pace : Pace}

theorem rests_of_bare_eq (h : q.bare = p.bare) : Rests p q := by
  cases p
  cases q
  simp only [bare, mk.injEq] at h
  simp only [Rests, h]

theorem Rests.of_bare_eq {r : Processor} (h : Rests p q) (hr : r.bare = q.bare) : Rests p r := by
  have hq := rests_of_bare_eq hr
  rw [Rests] at h hq ⊢
  rw [hq, h]

theorem rests_afterAction_stop (p : Processor) (i : Instruction) :
    Rests p (p.afterAction i .stop) := by
  cases i.opcode.opClass <;> rfl

theorem rests_of_not_committed (hfit : p.FlightFits) (h : (p.advance pace).result ≠ .committed) :
    Rests p (p.advance pace).next := by
  -- A call that only replays a micro-operation keeps the bare state; any other is as a whole step.
  rcases advance_replays_or_steps p pace with ⟨-, hb⟩ | ho
  · exact rests_of_bare_eq hb
  · have hresult : (p.advance pace).result = p.step.result := congrArg Prod.fst ho
    have hnext : (p.advance pace).next.bare = p.step.next.bare := congrArg Prod.snd ho
    refine Rests.of_bare_eq ?_ hnext
    cases hi : p.current? with
    | none => rcases step_of_current_none hfit hi with hs | hs | ⟨f, hs⟩ <;> rw [hs] <;> rfl
    | some i =>
        rw [step_eq_commit hfit hi] at hresult ⊢
        cases ha : p.resolve i with
        | error f =>
            simp only [commit_eq, resolve_landed, ha]
            rfl
        | ok a =>
            rw [next_commit p p.pc a ha]
            have hhalts : a.halts = true := by
              refine Bool.not_eq_false _ ▸ fun hf => h (hresult.trans ?_)
              exact result_commit_eq_committed (exists_text_of_current hi).1 ha hf
            cases a with
            | stop => exact rests_afterAction_stop p i
            | _ => cases hhalts

end Rest

end VectorMachine.Processor
