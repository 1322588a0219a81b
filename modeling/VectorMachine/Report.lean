import VectorMachine.Counters
import VectorMachine.Text.Decimal
import VectorMachine.Text.Fixed

namespace VectorMachine

namespace Report

def doubleRule : String := String.ofList (List.replicate 58 '=') ++ "\n"

def singleRule : String := String.ofList (List.replicate 58 '-') ++ "\n"

def percent (count retired : Nat) : String :=
  Text.twoPlaces
    ((UInt64.ofNat count).toFloat / (UInt64.ofNat (max retired 1)).toFloat * 100.0) ++ "%"

def mixRow (name : String) (count retired : Nat) : String :=
  "  " ++ Text.padRight 22 name ++ " " ++ toString count ++ " (" ++ percent count retired ++ ")\n"

inductive Section where
  | summary
  | instructionMix
  | control
  deriving DecidableEq, Repr

namespace Section

def all : List Section := [.summary, .instructionMix, .control]

def name : Section → String
  | .summary => "summary"
  | .instructionMix => "instruction_mix"
  | .control => "control"

def text (c : Counters) : Section → String
  | .summary =>
      "\n" ++ doubleRule ++ "TANDEM SIMULATION STATISTICS\n" ++ doubleRule ++
        "sim_insts                " ++ toString c.retired ++ "\n" ++
        "sim_micro_ops            " ++ toString c.microOps ++ "\n" ++ singleRule
  | .instructionMix =>
      "INSTRUCTION MIX\n" ++
        mixRow "op.alu" c.alu c.retired ++
        mixRow "op.memory" c.memory c.retired ++
        mixRow "op.control" c.control c.retired ++
        mixRow "op.stack" c.stack c.retired ++
        mixRow "op.bridge" c.bridge c.retired ++
        mixRow "op.system" c.system c.retired ++ singleRule
  | .control =>
      "CONTROL FLOW\n" ++
        "  branches.taken         " ++ toString c.branchesTaken ++ "\n" ++
        "  faults                 " ++ toString c.faults ++ "\n"

end Section

def sections (c : Counters) (names : List String) : String :=
  let wanted := Section.all.filter fun s => names.isEmpty || names.contains s.name
  String.join (wanted.map (Section.text c)) ++ doubleRule

def processor (c : Counters) : String := sections c []

def unit (c : UnitCounters) : String :=
  "COMPUTE UNIT\n" ++
    "  gpu.phases             " ++ toString c.phases ++ "\n" ++
    "  gpu.batches            " ++ toString c.batches ++ "\n" ++
    "  gpu.operations         " ++ toString c.operations ++ "\n" ++
    "  gpu.words_transferred  " ++ toString c.wordsTransferred ++ "\n" ++ doubleRule

end Report

end VectorMachine
