import VectorMachine.Proofs.Processor.Calls

namespace VectorMachine

def Flight.due : Flight → List MicroOp
  | ⟨_, _, none, _, _⟩ => []
  | ⟨_, _, some _, plan, _⟩ => plan.take 1

def Event.micro? : Event → Option MicroOp
  | .processor (.micro _ m) => some m
  | _ => none

namespace Processor

def replayed (p : Processor) : Pace → List MicroOp
  | .whole => []
  | .micro => p.flight.elim [] Flight.due

def stoppedBy (p : Processor) (f : Fault) (ms : List MicroOp) : Processor :=
  { p with
    halted := true
    flight := none
    lastFault := some f
    counters := { p.counters with
      faults := p.counters.faults + 1
      microOps := p.counters.microOps + ms.length } }

def told (p : Processor) (ms : List MicroOp) : List MicroOp :=
  if p.listeners.heard then ms else []

def Turn.Stops (t : Turn) (p : Processor) (ms : List MicroOp) : Prop :=
  ∀ f, t.result = .faulted f →
    t.next = p.stoppedBy f ms ∧ t.events.filterMap Event.micro? = p.told ms

theorem stops_of_ne {t : Turn} {p : Processor} {ms : List MicroOp}
    (h : ∀ f, t.result ≠ .faulted f) : t.Stops p ms := by
  intro f hf
  exact absurd hf (h f)

theorem stops_fail (p : Processor) (f : Fault) : (p.fail f).Stops p [] := by
  intro g hg
  have hfg : f = g := Progress.faulted.inj hg
  subst hfg
  refine ⟨rfl, ?_⟩
  simp only [fail, announce, told]
  split <;> simp [Event.micro?]

theorem perform_ne_faulted (p : Processor) (pc : Nat) (k : OpClass) (a : Action) (f : Fault) :
    (p.perform pc k a).result ≠ .faulted f := by
  simp only [perform, result_finish]
  split <;> exact Progress.noConfusion

theorem stops_commit (p : Processor) (pc : Nat) (i : Instruction) :
    (p.commit pc i).Stops p [] := by
  simp only [commit_eq, carryOut]
  split
  · exact stops_fail { p with flight := none } _
  · exact stops_of_ne (perform_ne_faulted _ _ _ _)

theorem stops_commitText (p : Processor) (pc : Nat) (text : String) :
    (p.commitText pc text).Stops p [] := by
  simp only [commitText]
  split
  · exact stops_fail _ _
  · exact stops_commit _ _ _

theorem stops_step (p : Processor) : p.step.Stops p [] := by
  simp only [step]
  split
  · exact stops_of_ne fun f => Progress.noConfusion
  · split
    · exact stops_commit _ _ _
    · exact stops_commitText _ _ _
    · split
      · exact stops_of_ne fun f => Progress.noConfusion
      · exact stops_commitText _ _ _

theorem stops_decodeStep (p : Processor) (pc : Nat) (text : String) :
    (p.decodeStep pc text).Stops p [] := by
  simp only [decodeStep]
  split
  · exact stops_fail _ _
  · exact stops_of_ne fun f => Progress.noConfusion

theorem micros_replay (p : Processor) (flight : Flight) (m : MicroOp) :
    (p.replay flight m).2.filterMap Event.micro? = p.told [m] := by
  simp only [replay, announce, told]
  split <;> simp [Event.micro?]

theorem stops_planStep (p : Processor) (pc : Nat) (text : String) (i : Instruction)
    (plan : List MicroOp) : (p.planStep pc text i plan).Stops p (plan.take 1) := by
  match plan with
  | [] => exact stops_commit p pc i
  | [m] =>
      intro f hf
      let shown := (p.replay ⟨pc, text, some i, [], m.stage⟩ m).1
      obtain ⟨hn, he⟩ := stops_commit shown pc i f hf
      refine ⟨hn, ?_⟩
      have hm := micros_replay p ⟨pc, text, some i, [], m.stage⟩ m
      have hnone : shown.told [] = [] := by simp [told]
      simp only [planStep, List.filterMap_append]
      rw [hm, he, hnone, List.append_nil]
      rfl
  | m :: n :: rest => exact stops_of_ne fun f => Progress.noConfusion

theorem stops_microStep (p : Processor) : p.microStep.Stops p (p.replayed .micro) := by
  simp only [microStep, replayed]
  split
  · exact stops_of_ne fun f => Progress.noConfusion
  · cases hf : p.flight with
    | none =>
        dsimp only
        split
        · exact stops_of_ne fun f => Progress.noConfusion
        · exact stops_of_ne fun f => Progress.noConfusion
    | some flight =>
        cases flight with
        | undecoded pc text plan stage => exact stops_decodeStep p pc text
        | decoded pc text i plan stage => exact stops_planStep p pc text i plan

theorem fault_is_atomic (p : Processor) (pace : Pace) (f : Fault)
    (h : (p.advance pace).result = .faulted f) :
    (p.advance pace).next =
      { p with
        halted := true
        flight := none
        lastFault := some f
        counters := { p.counters with
          faults := p.counters.faults + 1
          microOps := p.counters.microOps + (p.replayed pace).length } } ∧
    (p.advance pace).events.filterMap Event.micro? =
      (if p.listeners.heard then p.replayed pace else []) ∧
    ∀ (i : Instruction) (pc : Nat) (s t : Execution) (g : Fault),
      i.execute pc s = .error g t → t = s := by
  have hstops : (p.advance pace).Stops p (p.replayed pace) := by
    cases pace with
    | whole => exact stops_step p
    | micro => exact stops_microStep p
  obtain ⟨hnext, hevents⟩ := hstops f h
  exact ⟨hnext, hevents, fun i pc s t g => Instruction.eq_of_execute_eq_error⟩

def refusal : Processor :=
  let launches := ["GEXEC SUM, 0, 0, 4", "GEXEC ADD, 0, 8, 4"]
  { new {} with program := .ofInstructions launches }.after [.whole, .micro, .micro, .micro]

theorem fault_is_atomic_refusal :
    (refusal.advance .micro).result = .faulted (.refused (.busy .sum)) ∧
    (refusal.replayed .micro).length = 1 ∧
    (refusal.advance .micro).next =
      { refusal with
        halted := true
        flight := none
        lastFault := some (.refused (.busy .sum))
        counters := { refusal.counters with
          faults := refusal.counters.faults + 1
          microOps := refusal.counters.microOps + 1 } } := by
  have h : (refusal.advance .micro).result = .faulted (.refused (.busy .sum)) := by
    decide +kernel
  have hr : (refusal.replayed .micro).length = 1 := by decide +kernel
  obtain ⟨hn, -, -⟩ := fault_is_atomic refusal .micro (.refused (.busy .sum)) h
  rw [hr] at hn
  exact ⟨h, hr, hn⟩

end Processor

end VectorMachine
