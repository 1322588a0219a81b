import VectorMachine.Main
import VectorMachine.Proofs.Alu
import VectorMachine.Proofs.Cell
import VectorMachine.Proofs.Processor.Bare
import VectorMachine.Proofs.Processor.Flight
import VectorMachine.Proofs.Processor.Interleaving
import VectorMachine.Proofs.Processor.FaultAtomicity
import VectorMachine.Proofs.VectorUnit.Batch
import VectorMachine.Proofs.VectorUnit.Elementwise
import VectorMachine.Proofs.VectorUnit.Reduction
import VectorMachine.Proofs.VectorUnit.Steps
import VectorMachine.Proofs.VectorUnit.Requests
import VectorMachine.Proofs.VectorUnit.Representation
import VectorMachine.Proofs.VectorUnit.Fetched
import VectorMachine.Proofs.VectorUnit.Interference
import VectorMachine.Proofs.Processor.OtherUnit
import VectorMachine.Proofs.Processor.HostStepping
import VectorMachine.Proofs.VectorUnit.Laneless
import VectorMachine.Proofs.Processor.LaneIndependence
import VectorMachine.Proofs.NameMap
import VectorMachine.Proofs.Text.Trim
import VectorMachine.Proofs.Text.Fields
import VectorMachine.Proofs.Token.Literal
import VectorMachine.Proofs.Instruction.Tokens
import VectorMachine.Proofs.Instruction.Reading
import VectorMachine.Proofs.Instruction.RoundTrip
import VectorMachine.Proofs.Assembly.Lines
import VectorMachine.Proofs.Assembly.Labels
import VectorMachine.Proofs.Assembly.Occurrence
import VectorMachine.Proofs.Assembly.Diagnostics
import VectorMachine.Proofs.Assembly.Decodable
import VectorMachine.Proofs.Assembly.Linked
import VectorMachine.Proofs.Assembly.Faithful
import VectorMachine.Proofs.Assembly.JumpTargets
import VectorMachine.Proofs.Instruction.Letters
import VectorMachine.Proofs.Assembly.Reassembly
import VectorMachine.Proofs.Processor.DecodeFaults
import VectorMachine.Proofs.Processor.Requests
import VectorMachine.Proofs.Processor.CallEvents
import VectorMachine.Proofs.Processor.Rounds
import VectorMachine.Proofs.Processor.EventStream
import VectorMachine.Proofs.VectorUnit.Accounting
import VectorMachine.Proofs.Processor.Runs
import VectorMachine.Proofs.Processor.Foretold
import VectorMachine.Proofs.Processor.FaultCauses
import VectorMachine.Proofs.Processor.Transfers
import VectorMachine.Proofs.Processor.Commits
import VectorMachine.Proofs.Processor.Frame
import VectorMachine.Proofs.Processor.Launches
import VectorMachine.Proofs.Processor.Returns
import VectorMachine.Proofs.Processor.Stack
import VectorMachine.Proofs.VectorUnit.Unheard
import VectorMachine.Proofs.Processor.Unheard
import VectorMachine.Proofs.Simulator.Reset
import VectorMachine.Proofs.VectorUnit.Draining
import VectorMachine.Proofs.Processor.Halting
import VectorMachine.Proofs.Simulator.Outcomes
import VectorMachine.Proofs.Simulator.Continuation
import VectorMachine.Proofs.VectorUnit.PhaseEvents
import VectorMachine.Proofs.Instruction.Classes
import VectorMachine.Proofs.Processor.Moves
import VectorMachine.Proofs.Processor.Comparisons
import VectorMachine.Proofs.Listeners
import VectorMachine.Proofs.Listing
import VectorMachine.Proofs.Text.Layout
import VectorMachine.Proofs.Instruction.Spacing
import VectorMachine.Proofs.Processor.Replays
import VectorMachine.Proofs.Json.Strings
import VectorMachine.Proofs.Json.RoundTrip
import VectorMachine.Proofs.Program.RoundTrip
import VectorMachine.Proofs.Program.SourceLines
