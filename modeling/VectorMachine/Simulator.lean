import VectorMachine.Assembly
import VectorMachine.Processor.Run

namespace VectorMachine

structure Simulator where
  processor : Processor
  settings : Settings
  deriving DecidableEq, Repr

namespace Simulator

def new (s : Settings) : Simulator := ⟨.new s, s⟩

def load (s : Simulator) (program : Program) : Simulator × List Event :=
  let (processor, events) := s.processor.load program
  ({ s with processor := processor }, events)

def loadSource (s : Simulator) (source : String) :
    Except (List Assembly.Diagnostic) (Simulator × List Event) :=
  (assemble source).map s.load

def run (s : Simulator) (pace : Processor.Pace) : Outcome × Simulator × List Event :=
  let r := s.processor.run pace s.settings.general.maxSteps
  (r.outcome, { s with processor := r.processor }, r.events.toList)

def reset (s : Simulator) : Simulator × List Event :=
  let (processor, events) := s.processor.reset
  ({ s with processor := processor }, events)

end Simulator

end VectorMachine
