import VectorMachine.Proofs.Processor.Bare
import VectorMachine.Proofs.Processor.Calls

namespace VectorMachine.Processor

theorem isAdvanced_perform (p : Processor) (pc : Nat) (k : OpClass) (a : Action) :
    (p.perform pc k a).result.isAdvanced = false := by
  simp only [perform, result_finish]
  split <;> rfl

theorem isAdvanced_commit (p : Processor) (pc : Nat) (i : Instruction) :
    (p.commit pc i).result.isAdvanced = false := by
  simp only [commit_eq, carryOut]
  split
  · rfl
  · exact isAdvanced_perform _ _ _ _

theorem isAdvanced_commitText (p : Processor) (pc : Nat) (text : String) :
    (p.commitText pc text).result.isAdvanced = false := by
  simp only [commitText]
  split
  · rfl
  · exact isAdvanced_commit _ _ _

theorem isAdvanced_step (p : Processor) : p.step.result.isAdvanced = false := by
  simp only [step]
  split
  · rfl
  · split
    · exact isAdvanced_commit _ _ _
    · exact isAdvanced_commitText _ _ _
    · split
      · rfl
      · exact isAdvanced_commitText _ _ _

theorem step_bare (p : Processor) :
    p.bare.step = if p.halted then ⟨.halted, p.bare, []⟩ else
      match p.program.instruction? p.pc with
      | none => p.bare.runOut
      | some text => p.bare.commitText p.pc text :=
  rfl

theorem outcome_step {p : Processor} (h : p.FlightFits) : p.bare.step.outcome = p.step.outcome := by
  rw [step_bare]
  simp only [step]
  split
  · rfl
  · cases hf : p.flight with
    | none =>
        cases ht : p.program.instruction? p.pc with
        | none => exact outcome_runOut p
        | some text => exact outcome_commitText _ _ _
    | some flight =>
        have hfit := h _ hf
        rw [hfit.text_eq]
        cases flight with
        | undecoded pc text plan stage =>
            have hpc : pc = p.pc := hfit.pc_eq
            subst hpc
            exact outcome_commitText _ _ _
        | decoded pc text i plan stage =>
            have hpc : pc = p.pc := hfit.pc_eq
            have hd : Instruction.decode text = .ok i := hfit.planned.1
            subst hpc
            simp only [commitText, hd]
            exact outcome_commit _ _ _

theorem outcome_step_congr {p q : Processor} (hp : p.FlightFits) (hq : q.FlightFits)
    (h : p.bare = q.bare) : p.step.outcome = q.step.outcome := by
  rw [← outcome_step hp, ← outcome_step hq, h]

def Turn.Replays (t : Turn) (p : Processor) : Prop :=
  t.result.isAdvanced = true ∧ t.next.bare = p.bare

theorem planStep_replays_or_steps (p : Processor) (pc : Nat) (text : String) (i : Instruction)
    (plan : List MicroOp) :
    (p.planStep pc text i plan).Replays p ∨
      (p.planStep pc text i plan).outcome = (p.commit pc i).outcome := by
  match plan with
  | [] => exact .inr rfl
  | [m] =>
      let shown := (p.replay ⟨pc, text, some i, [], m.stage⟩ m).1
      have hs : shown.bare = p.bare := rfl
      refine .inr ?_
      calc (p.planStep pc text i [m]).outcome
          = (shown.commit pc i).outcome := rfl
        _ = (p.commit pc i).outcome := by rw [← outcome_commit shown, hs, outcome_commit]
  | m :: n :: rest => exact .inl ⟨rfl, rfl⟩

theorem decodeStep_replays_or_steps (p : Processor) (pc : Nat) (text : String) :
    (p.decodeStep pc text).Replays p ∨
      (p.decodeStep pc text).outcome = (p.commitText pc text).outcome := by
  simp only [decodeStep, commitText]
  split
  · exact .inr rfl
  · exact .inl ⟨rfl, rfl⟩

theorem advance_replays_or_steps (p : Processor) (pace : Pace) :
    (p.advance pace).Replays p ∨ (p.advance pace).outcome = p.step.outcome := by
  cases pace with
  | whole => exact .inr rfl
  | micro =>
      simp only [advance, microStep, step]
      split
      · exact .inr rfl
      · split
        · exact planStep_replays_or_steps _ _ _ _ _
        · exact decodeStep_replays_or_steps _ _ _
        · split
          · exact .inr rfl
          · exact .inl ⟨rfl, rfl⟩

theorem replays_of_isAdvanced {p : Processor} {pace : Pace}
    (h : (p.advance pace).result.isAdvanced = true) : (p.advance pace).Replays p := by
  rcases advance_replays_or_steps p pace with hr | ho
  · exact hr
  · have hres : (p.advance pace).result = p.step.result := congrArg Prod.fst ho
    rw [hres, isAdvanced_step] at h
    cases h

theorem step_of_not_advanced {p q : Processor} {pace : Pace} (hp : p.FlightFits) (hq : q.FlightFits)
    (hb : q.bare = p.bare) (h : (q.advance pace).result.isAdvanced = false) :
    (q.advance pace).result = p.step.result ∧ (q.advance pace).next.bare = p.step.next.bare := by
  rcases advance_replays_or_steps q pace with ⟨ha, -⟩ | ho
  · rw [h] at ha
    cases ha
  · have hstep := ho.trans (outcome_step_congr hq hp hb)
    exact ⟨congrArg Prod.fst hstep, congrArg Prod.snd hstep⟩

def commits (p : Processor) (paces : List Pace) : List Progress :=
  (p.results paces).filter fun r => !r.isAdvanced

def wholeSteps (k : Nat) : List Pace := List.replicate k .whole

theorem commits_eq_wholeSteps {p q : Processor} (hp : p.FlightFits) (hq : q.FlightFits)
    (h : q.bare = p.bare) (paces : List Pace) :
    q.commits paces = p.results (wholeSteps (q.commits paces).length) ∧
      (q.after paces).bare = (p.after (wholeSteps (q.commits paces).length)).bare := by
  induction paces generalizing p q with
  | nil => exact ⟨rfl, h⟩
  | cons pace rest ih =>
      have hq' := flightFits_advance hq pace
      rcases advance_replays_or_steps q pace with ⟨ha, hb⟩ | ho
      · have hc : q.commits (pace :: rest) = (q.advance pace).next.commits rest := by
          simp [commits, results, ha]
        -- `p` waits while `q` replays
        rw [hc]
        exact ih hp hq' (hb.trans h)
      · have hstep := ho.trans (outcome_step_congr hq hp h)
        have hres : (q.advance pace).result = p.step.result := congrArg Prod.fst hstep
        have hnext : (q.advance pace).next.bare = p.step.next.bare := congrArg Prod.snd hstep
        have hc : q.commits (pace :: rest) =
            p.step.result :: (q.advance pace).next.commits rest := by
          simp [commits, results, hres, isAdvanced_step]
        obtain ⟨hcs, hbs⟩ := ih (flightFits_step hp) hq' hnext
        rw [hc]
        exact ⟨congrArg (List.cons p.step.result) hcs, hbs⟩

theorem retired_of_bare_eq {p q : Processor} (h : p.bare = q.bare) :
    p.counters.retired = q.counters.retired :=
  congrArg (fun r => r.counters.retired) h

theorem exists_stage {r : Progress} (h : r.isAdvanced = true) : ∃ stage, r = .advanced stage := by
  cases r with
  | advanced stage => exact ⟨stage, rfl⟩
  | _ => cases h

theorem distance_lt_of_isAdvanced {p : Processor} {pace : Pace}
    (h : (p.advance pace).result.isAdvanced = true) :
    (p.advance pace).next.distance < p.distance := by
  obtain ⟨stage, hstage⟩ := exists_stage h
  have hgo := Turn.goesOn_advanced hstage
  have hret := retired_of_bare_eq (replays_of_isAdvanced h).2
  rcases advance_progress hgo with ⟨hr, -⟩ | ⟨-, hd⟩
  · omega
  · exact hd

theorem exists_replays {p : Processor} (hp : p.FlightFits) : ∃ stages : List Stage,
    stages.length < p.distance ∧
    p.results (List.replicate (stages.length + 1) .micro) =
      stages.map .advanced ++ [p.step.result] ∧
    (p.after (List.replicate (stages.length + 1) .micro)).bare = p.step.next.bare := by
  induction hd : p.distance using Nat.strongRecOn generalizing p with
  | ind d ih =>
      subst hd
      rcases advance_replays_or_steps p .micro with ⟨ha, hb⟩ | ho
      · have hnext := flightFits_advance hp .micro
        have hlt := distance_lt_of_isAdvanced ha
        have hsame := outcome_step_congr hnext hp hb
        have hresult : (p.advance .micro).next.step.result = p.step.result :=
          congrArg Prod.fst hsame
        have hbare : (p.advance .micro).next.step.next.bare = p.step.next.bare :=
          congrArg Prod.snd hsame
        obtain ⟨stage, hstage⟩ := exists_stage ha
        obtain ⟨stages, hlen, hresults, hafter⟩ := ih _ hlt hnext rfl
        refine ⟨stage :: stages, Nat.lt_of_le_of_lt hlen hlt, ?_, hafter.trans hbare⟩
        rw [List.length_cons, List.replicate_succ, results, hstage, hresults, hresult]
        rfl
      · have hresult : (p.advance .micro).result = p.step.result := congrArg Prod.fst ho
        refine ⟨[], distance_pos hp, ?_, congrArg Prod.snd ho⟩
        exact congrArg (fun r => [r]) hresult

theorem length_lt_distance_of_prefix {p : Processor} (hp : p.FlightFits) {paces : List Pace}
    {streak : List Progress} (hs : streak <+: p.results paces)
    (ha : ∀ r ∈ streak, r.isAdvanced = true) : streak.length < p.distance := by
  induction paces generalizing p streak with
  | nil =>
      rw [List.prefix_nil.1 hs]
      exact distance_pos hp
  | cons pace rest ih =>
      cases streak with
      | nil => exact distance_pos hp
      | cons r streak =>
          obtain ⟨hr, hrest⟩ := List.cons_prefix_cons.1 hs
          have hd : (p.advance pace).next.distance < p.distance :=
            distance_lt_of_isAdvanced (hr ▸ ha r List.mem_cons_self)
          have hl := ih (flightFits_advance hp pace) hrest fun s hm =>
            ha s (List.mem_cons_of_mem r hm)
          rw [List.length_cons]
          omega

theorem length_streak_le {p : Processor} (hp : p.FlightFits) {paces : List Pace}
    {streak : List Progress} (hs : streak <:+: p.results paces)
    (ha : ∀ r ∈ streak, r.isAdvanced = true) : streak.length ≤ 4 := by
  induction paces generalizing p with
  | nil =>
      rw [List.infix_nil.1 hs]
      exact Nat.zero_le 4
  | cons pace rest ih =>
      rcases List.infix_cons_iff.1 hs with h | h
      · have hpre : streak <+: p.results (pace :: rest) := h
        have hl := length_lt_distance_of_prefix hp hpre ha
        have hd := distance_le hp
        omega
      · exact ih (flightFits_advance hp pace) h

theorem micro_refines_whole (p : Processor) (hp : p.flight = none) (paces : List Pace) :
    (∀ before pace rest, paces = before ++ pace :: rest →
      ((p.after before).advance pace).result.isAdvanced = true →
        ((p.after before).advance pace).next.bare = (p.after before).bare) ∧
    p.commits paces = p.results (wholeSteps (p.commits paces).length) ∧
    (p.after paces).bare = (p.after (wholeSteps (p.commits paces).length)).bare ∧
    ∀ streak, streak <:+: p.results paces → (∀ r ∈ streak, r.isAdvanced = true) →
      streak.length ≤ 4 := by
  have hfit := flightFits_of_none hp
  obtain ⟨hc, hb⟩ := commits_eq_wholeSteps hfit hfit rfl paces
  refine ⟨?_, hc, hb, ?_⟩
  · intro before pace rest _ ha
    exact (replays_of_isAdvanced ha).2
  · intro streak hs ha
    exact length_streak_le hfit hs ha

def division : Processor :=
  { new {} with program := .ofInstructions ["MOV R0, 7", "PUSH R0", "DIV R0, R1"] }

def mixed : List Pace :=
  [.micro, .micro, .micro, .micro, .micro, .whole, .micro, .micro, .micro, .micro, .micro]

theorem micro_refines_whole_division :
    division.flight = none ∧
    division.commits mixed = [.committed, .committed, .faulted .divisionByZero] ∧
    division.results (wholeSteps 3) = [.committed, .committed, .faulted .divisionByZero] ∧
    (division.after mixed).bare = (division.after (wholeSteps 3)).bare := by
  have hc : division.commits mixed = [.committed, .committed, .faulted .divisionByZero] := by
    decide +kernel
  obtain ⟨-, hr, hb, -⟩ := micro_refines_whole division rfl mixed
  rw [hc] at hr hb
  exact ⟨rfl, hc, hr.symm, hb⟩

end VectorMachine.Processor
