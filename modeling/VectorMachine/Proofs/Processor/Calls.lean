import VectorMachine.Proofs.Processor.Flight

namespace VectorMachine.Processor

def Progress.isAdvanced : Progress → Bool
  | .advanced _ => true
  | _ => false

def results (p : Processor) : List Pace → List Progress
  | [] => []
  | pace :: rest => (p.advance pace).result :: (p.advance pace).next.results rest

def after (p : Processor) (paces : List Pace) : Processor :=
  paces.foldl (fun q pace => (q.advance pace).next) p

theorem flightFits_after {p : Processor} (h : p.FlightFits) (paces : List Pace) :
    (p.after paces).FlightFits := by
  induction paces generalizing p with
  | nil => exact h
  | cons pace rest ih => exact ih (flightFits_advance h pace)

end VectorMachine.Processor
