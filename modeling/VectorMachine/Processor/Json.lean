import VectorMachine.Instruction.Json
import VectorMachine.Processor.Run
import VectorMachine.VectorUnit.Json

namespace VectorMachine

def Flags.toJson (f : Flags) : Json :=
  .record [("zero", .bool f.zero), ("negative", .bool f.negative), ("carry", .bool f.carry)]

def Counters.toJson (c : Counters) : Json :=
  .record [
    ("instructions_retired", .nat c.retired),
    ("micro_ops", .nat c.microOps),
    ("inst_alu", .nat c.alu),
    ("inst_memory", .nat c.memory),
    ("inst_control", .nat c.control),
    ("inst_stack", .nat c.stack),
    ("inst_bridge", .nat c.bridge),
    ("inst_system", .nat c.system),
    ("branches_taken", .nat c.branchesTaken),
    ("faults", .nat c.faults)]

def Refusal.toJson : Refusal → Json
  | .busy op => .record [("Busy", .text op.name)]

def Fault.toJson : Fault → Json
  | .undecodable e => .record [("Decode", e.toJson)]
  | .notARegister o => .record [("InvalidRegister", .text o.text)]
  | .noValue o => .record [("InvalidOperand", .text o.text)]
  | .missingOperand i position => .record [("InvalidOperand", .text (Fault.missingText i position))]
  | .unknownLabel name => .record [("UnknownLabel", .text name)]
  | .divisionByZero => .text "DivisionByZero"
  | .noUnit op => .record [("NoComputeUnit", .text op.mnemonic)]
  | .refused r => .record [("Compute", r.toJson)]

def Outcome.toJson : Outcome → Json
  | .halted n => .record [("kind", .text "halted"), ("steps", .nat n)]
  | .faulted n f => .record [("kind", .text "faulted"), ("steps", .nat n), ("error", f.toJson)]
  | .stepLimit n => .record [("kind", .text "step_limit"), ("steps", .nat n)]

namespace Processor

def Snapshot.toJson (s : Snapshot) : Json :=
  .record [
    ("registers", .list wordJson s.registers.toList),
    ("memory", .list wordJson s.memory.toList),
    ("flags", s.flags.toJson),
    ("pc", .nat s.pc),
    ("sp", .nat s.sp.val),
    ("halted", .bool s.halted),
    ("stage", .option Stage.toJson s.stage)]

namespace Event

def details : Event → List (String × Json)
  | .reset _ => []
  | .micro _ m => [("micro", m.toJson)]
  | .step _ changed => [("changed", .list (fun r => .nat r.val) changed)]
  | .halt _ => []
  | .error _ message => [("message", .text message)]

def toJson (e : Event) : Json :=
  .record (("kind", .text e.kind) :: ("state", e.state.toJson) :: e.details)

end Event

end Processor

def Event.toJson : Event → Json
  | .processor e => e.toJson
  | .unit e => e.toJson

end VectorMachine
