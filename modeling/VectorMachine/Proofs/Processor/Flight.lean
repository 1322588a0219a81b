import VectorMachine.Processor.Step

namespace VectorMachine

namespace Flight

def Planned : Flight → Prop
  | ⟨_, _, none, plan, stage⟩ => plan = [] ∧ stage = .fetch
  | ⟨_, text, some i, plan, _⟩ =>
      Instruction.decode text = .ok i ∧ plan ≠ [] ∧ ∃ q : Processor, plan <:+ q.plan i

structure Fits (f : Flight) (p : Processor) : Prop where
  running : p.halted = false
  pc_eq : f.pc = p.pc
  text_eq : p.program.instruction? p.pc = some f.text
  planned : f.Planned

end Flight

namespace Processor

def FlightFits (p : Processor) : Prop :=
  ∀ f, p.flight = some f → f.Fits p

theorem flightFits_of_none {p : Processor} (h : p.flight = none) : p.FlightFits := by
  intro f hf
  rw [h] at hf
  cases hf

theorem flightFits_of_some {p : Processor} {f : Flight} (h : p.flight = some f) (hf : f.Fits p) :
    p.FlightFits := by
  intro g hg
  rw [h] at hg
  cases hg
  exact hf

theorem flight_eq_none_of_halted {p : Processor} (h : p.FlightFits) (hh : p.halted = true) :
    p.flight = none := by
  cases hf : p.flight with
  | none => rfl
  | some flight => cases hh.symm.trans (h flight hf).running

theorem flight_commit (p : Processor) (pc : Nat) (i : Instruction) :
    (p.commit pc i).next.flight = none := by
  simp only [commit_eq, carryOut]
  split
  · rfl
  · rename_i a _
    simp only [perform, next_finish]
    exact flight_settle { p with flight := none } pc a

theorem flight_commitText (p : Processor) (pc : Nat) (text : String) :
    (p.commitText pc text).next.flight = none := by
  simp only [commitText]
  split
  · rfl
  · exact flight_commit _ _ _

theorem flightFits_step {p : Processor} (h : p.FlightFits) : p.step.next.FlightFits := by
  simp only [step]
  split
  · exact h
  · split
    · exact flightFits_of_none (flight_commit _ _ _)
    · exact flightFits_of_none (flight_commitText _ _ _)
    · split
      · exact flightFits_of_none rfl
      · exact flightFits_of_none (flight_commitText _ _ _)

theorem flightFits_fetchStep {p : Processor} {text : String} (hr : p.halted = false)
    (ht : p.program.instruction? p.pc = some text) : (p.fetchStep text).next.FlightFits :=
  flightFits_of_some rfl ⟨hr, rfl, ht, rfl, rfl⟩

theorem flightFits_decodeStep {p : Processor} {pc : Nat} {text : String} {plan : List MicroOp}
    {stage : Stage} (h : (Flight.mk pc text none plan stage).Fits p) :
    (p.decodeStep pc text).next.FlightFits := by
  simp only [decodeStep]
  split
  · exact flightFits_of_none rfl
  · rename_i i hi
    have hd : (Flight.mk pc text (some i) (p.plan i) .decode).Planned :=
      ⟨hi, p.plan_ne_nil i, p, List.suffix_refl _⟩
    exact flightFits_of_some rfl ⟨h.running, h.pc_eq, h.text_eq, hd⟩

theorem flightFits_planStep {p : Processor} {pc : Nat} {text : String} {i : Instruction}
    {stage : Stage} {plan : List MicroOp} (h : (Flight.mk pc text (some i) plan stage).Fits p) :
    (p.planStep pc text i plan).next.FlightFits := by
  match plan with
  | [] => exact flightFits_of_none (flight_commit _ _ _)
  | [m] => exact flightFits_of_none (flight_commit _ _ _)
  | m :: n :: rest =>
      obtain ⟨hi, -, q, hq⟩ := h.planned
      have hs : n :: rest <:+ q.plan i := (List.suffix_cons m _).trans hq
      have hd : (Flight.mk pc text (some i) (n :: rest) m.stage).Planned :=
        ⟨hi, List.cons_ne_nil _ _, q, hs⟩
      exact flightFits_of_some rfl ⟨h.running, h.pc_eq, h.text_eq, hd⟩

theorem flightFits_microStep {p : Processor} (h : p.FlightFits) : p.microStep.next.FlightFits := by
  simp only [microStep]
  split
  · exact h
  · rename_i hr
    have hrun : p.halted = false := by simpa using hr
    split
    · rename_i hf
      exact flightFits_planStep (h _ hf)
    · rename_i hf
      exact flightFits_decodeStep (h _ hf)
    · split
      · exact flightFits_of_none rfl
      · rename_i ht
        exact flightFits_fetchStep hrun ht

theorem flightFits_advance {p : Processor} (h : p.FlightFits) (pace : Pace) :
    (p.advance pace).next.FlightFits := by
  cases pace with
  | whole => exact flightFits_step h
  | micro => exact flightFits_microStep h

theorem distance_pos {p : Processor} (h : p.FlightFits) : 0 < p.distance := by
  simp only [distance]
  split
  · decide
  · decide
  · rename_i hf
    obtain ⟨-, hne, -⟩ := (h _ hf).planned
    exact List.length_pos_iff.2 hne

theorem distance_le {p : Processor} (h : p.FlightFits) : p.distance ≤ 5 := by
  simp only [distance]
  split
  · decide
  · decide
  · rename_i hf
    obtain ⟨-, -, q, hq⟩ := (h _ hf).planned
    have hl := Nat.le_trans hq.length_le (q.length_plan_le _)
    omega

end Processor

end VectorMachine
