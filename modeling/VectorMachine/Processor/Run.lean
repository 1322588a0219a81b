import VectorMachine.Processor.Step

namespace VectorMachine

inductive Outcome where
  | halted (steps : Nat)
  | faulted (steps : Nat) (fault : Fault)
  | stepLimit (steps : Nat)
  deriving DecidableEq, Repr

def Outcome.steps : Outcome → Nat
  | .halted n => n
  | .faulted n _ => n
  | .stepLimit n => n

structure Run where
  outcome : Outcome
  processor : Processor
  events : Array Event
  deriving DecidableEq, Repr

namespace Processor

def callsLeft (limit start : Nat) (p : Processor) : Nat :=
  6 * (limit + start - p.counters.retired) + p.distance

theorem Nearer.callsLeft_lt {p q : Processor} {limit start : Nat}
    (hl : ¬ limit ≤ p.counters.retired - start) (h : Nearer p q) :
    callsLeft limit start q < callsLeft limit start p := by
  unfold callsLeft
  rcases h with ⟨h, hf⟩ | ⟨h, hd⟩
  · have hq : q.distance = 5 := by simp [distance, hf]
    omega
  · rw [h]
    omega

def runFrom (pace : Pace) (limit start : Nat) (p : Processor) (events : Array VectorMachine.Event) :
    Run :=
  let steps := p.counters.retired - start
  if limit ≤ steps then ⟨.stepLimit steps, p, events⟩
  else
    let turn := p.advance pace
    let seen := events ++ turn.events
    match _h : turn.result with
    | .faulted f => ⟨.faulted (turn.next.counters.retired - start) f, turn.next, seen⟩
    | .halted => ⟨.halted (turn.next.counters.retired - start), turn.next, seen⟩
    | .committed => runFrom pace limit start turn.next seen
    | .advanced _ => runFrom pace limit start turn.next seen
termination_by callsLeft limit start p
decreasing_by
  · exact Nearer.callsLeft_lt (by assumption) (advance_progress (Turn.goesOn_committed _h))
  · exact Nearer.callsLeft_lt (by assumption) (advance_progress (Turn.goesOn_advanced _h))

def run (p : Processor) (pace : Pace) (limit : Nat) : Run :=
  p.runFrom pace limit p.counters.retired #[]

end Processor

end VectorMachine
