import VectorMachine.Proofs.Processor.CallEvents

namespace VectorMachine

def Flight.Showed (stages : List Stage) : Flight → Prop
  | ⟨_, _, none, _, _⟩ => stages = [.fetch]
  | ⟨_, _, some _, plan, _⟩ => Processor.Round (stages ++ plan.map MicroOp.stage)

namespace Processor

def Showed (p : Processor) (stages : List Stage) : Prop :=
  p.flight.elim (stages = []) (Flight.Showed stages)

section Showed

variable {p : Processor} {stages : List Stage}

theorem showed_none (hf : p.flight = none) : p.Showed stages ↔ stages = [] := by
  rw [Showed, hf]
  rfl

theorem showed_some {flight : Flight} (hf : p.flight = some flight) :
    p.Showed stages ↔ flight.Showed stages := by
  rw [Showed, hf]
  rfl

theorem exists_showed (h : p.FlightFits) : ∃ stages, p.Showed stages := by
  cases hf : p.flight with
  | none => exact ⟨[], (showed_none hf).2 rfl⟩
  | some flight =>
      cases flight with
      | undecoded pc text plan stage => exact ⟨[.fetch], (showed_some hf).2 rfl⟩
      | decoded pc text i plan stage =>
          obtain ⟨-, -, q, before, hplan⟩ := (h _ hf).planned
          have hround := q.round_plan i
          rw [← hplan, List.map_append, ← List.append_assoc] at hround
          exact ⟨_, (showed_some hf).2 hround⟩

end Showed

def Event.stage? : Event → Option Stage
  | .micro _ m => some m.stage
  | _ => none

/-- What is told by calls on micro-operations, after some stages of the instruction at hand. -/
inductive Rounds : List Stage → List Event → Prop where
  | nil {stages : List Stage} : Rounds stages []
  | micro {stages : List Stage} {s : Snapshot} {m : MicroOp} {es : List Event}
      (h : Rounds (stages ++ [m.stage]) es) : Rounds stages (.micro s m :: es)
  | step {stages : List Stage} {s : Snapshot} {rs : List Register} {es : List Event}
      (hround : Round stages) (h : Rounds [] es) : Rounds stages (.step s rs :: es)
  | halt {stages : List Stage} {s : Snapshot} {es : List Event} (hend : es = []) :
      Rounds stages (.halt s :: es)
  | error {stages : List Stage} {s : Snapshot} {message : String} {es : List Event}
      (hend : es = []) : Rounds stages (.error s message :: es)

theorem Ends.rounds {p q : Processor} {i? : Option Instruction} {result : Progress}
    {es rest : List Event} {stages : List Stage} (h : Ends p i? q result es)
    (hround : Round stages) (hrest : Rounds [] rest) (hstop : q.halted = true → rest = []) :
    Rounds stages (es ++ rest) := by
  cases h with
  | committed => exact .step hround hrest
  | halted _ _ hq => exact .step hround (.halt (hstop hq))
  | faulted _ hq => exact .error (hstop hq)

/-- A call tells the rounds of a run on: they can be followed by what the state after it allows,
and by nothing once the processor has stopped. -/
def Turn.Extends (t : Turn) (stages : List Stage) : Prop :=
  ∀ rest, (∀ later, t.next.Showed later → Rounds later rest) →
    (t.next.halted = true → rest = []) → Rounds stages (t.told ++ rest)

section Calls

variable {p : Processor} {stages : List Stage} (hl : p.listeners.heard = true)

include hl

theorem extends_fail (f : Fault) : (p.fail f).Extends stages := by
  intro rest _ hstop
  rw [told_fail hl]
  exact .error (hstop rfl)

theorem extends_runOut : p.runOut.Extends stages := by
  intro rest _ hstop
  rw [told_runOut hl]
  exact .halt (hstop rfl)

theorem extends_replay (flight : Flight) (m : MicroOp) (h : flight.stage = m.stage)
    (hs : flight.Showed (stages ++ [m.stage])) :
    (Turn.mk (.advanced m.stage) (p.replay flight m).1 (p.replay flight m).2).Extends stages := by
  intro rest hrest _
  rw [Turn.told, told_replay hl flight m h]
  exact .micro (hrest _ hs)

theorem extends_commit (hp : p.halted = false) (hround : Round stages) (pc : Nat)
    (i : Instruction) : (p.commit pc i).Extends stages := by
  intro rest hrest hstop
  have hnext : Rounds [] rest := hrest [] ((showed_none (flight_commit p pc i)).2 rfl)
  exact (settles_commit hl hp pc).ends.rounds hround hnext hstop

theorem extends_decodeStep (pc : Nat) (text : String) :
    (p.decodeStep pc text).Extends [.fetch] := by
  simp only [decodeStep]
  split
  · exact extends_fail hl _
  · rename_i i _
    exact extends_replay hl ⟨pc, text, some i, _, .decode⟩ ⟨.decode, _, _, _, _⟩ rfl
      (p.round_plan i)

theorem extends_planStep {pc : Nat} {text : String} {i : Instruction} {plan : List MicroOp}
    (hp : p.halted = false) (hne : plan ≠ []) (hround : Round (stages ++ plan.map MicroOp.stage)) :
    (p.planStep pc text i plan).Extends stages := by
  match plan with
  | [] => exact absurd rfl hne
  | [m] =>
      intro rest hrest hstop
      let shown := (p.replay ⟨pc, text, some i, [], m.stage⟩ m).1
      have hcommit := extends_commit (p := shown) hl hp hround pc i rest hrest hstop
      rw [told_planStep_last hl]
      exact .micro hcommit
  | m :: n :: rest =>
      refine extends_replay hl ⟨pc, text, some i, n :: rest, m.stage⟩ m rfl ?_
      rw [Flight.Showed, List.append_assoc]
      exact hround

theorem extends_microStep (hfit : p.FlightFits) (hs : p.Showed stages) :
    p.microStep.Extends stages := by
  simp only [microStep]
  by_cases hh : p.halted = true
  · rw [if_pos hh]
    exact fun rest hrest _ => hrest stages hs
  · have hp : p.halted = false := by simpa using hh
    rw [if_neg hh]
    cases hf : p.flight with
    | none =>
        obtain rfl := (showed_none hf).1 hs
        cases p.program.instruction? p.pc with
        | none => exact extends_runOut hl
        | some text =>
            exact extends_replay hl ⟨p.pc, text, none, [], .fetch⟩ ⟨.fetch, _, _, _, _⟩ rfl rfl
    | some flight =>
        have hshowed := (showed_some hf).1 hs
        cases flight with
        | undecoded pc text plan stage =>
            obtain rfl := hshowed
            exact extends_decodeStep hl pc text
        | decoded pc text i plan stage =>
            obtain ⟨-, hne, -⟩ := (hfit _ hf).planned
            exact extends_planStep hl hp hne hshowed

end Calls

namespace Rounds

variable {stages : List Stage} {mid rest : List Event} {s : Snapshot} {rs : List Register}

theorem after_step (h : Rounds stages (mid ++ .step s rs :: rest)) : Rounds [] rest := by
  induction mid generalizing stages with
  | nil =>
      cases h with
      | step _ h => exact h
  | cons e mid ih =>
      cases h with
      | micro h | step _ h => exact ih h
      | halt hend | error hend => simp at hend

theorem round_of_step (h : Rounds stages (mid ++ .step s rs :: rest))
    (hmid : ∀ e ∈ mid, e.isStep = false) :
    ∃ later, Round (stages ++ later) ∧ mid.map Event.stage? = later.map some := by
  induction mid generalizing stages with
  | nil =>
      cases h with
      | step hround _ => exact ⟨[], by rwa [List.append_nil], rfl⟩
  | cons e mid ih =>
      rw [List.forall_mem_cons] at hmid
      cases h with
      | micro h =>
          rename_i m
          obtain ⟨later, hround, hstages⟩ := ih h hmid.2
          refine ⟨m.stage :: later, by rwa [List.append_assoc] at hround, ?_⟩
          rw [List.map_cons, hstages]
          rfl
      | step => cases hmid.1
      | halt hend | error hend => simp at hend

end Rounds

end Processor

end VectorMachine
