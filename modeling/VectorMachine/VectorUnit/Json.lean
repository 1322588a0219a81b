import VectorMachine.Json.Basic
import VectorMachine.VectorUnit.Basic

namespace VectorMachine

def wordJson (w : Word) : Json := .nat w.toNat

def MicroOp.toJson (m : MicroOp) : Json :=
  .record [
    ("stage", .text m.stage.name),
    ("description", .text m.description),
    ("source", .option (fun p => .text p.text) m.source),
    ("destination", .option (fun p => .text p.text) m.destination),
    ("value", .option (fun v => .int v.toInt) m.value)]

def Job.toJson (j : Job) : Json :=
  .record [
    ("op", .text j.op.name),
    ("src", .nat j.src.val),
    ("dst", .nat j.dst.val),
    ("len", .nat j.len),
    ("scalar", .option wordJson j.scalar)]

def Lane.toJson (l : Lane) : Json :=
  .record [
    ("busy", .bool l.busy),
    ("opcode", .option (fun op => .text op.name) l.opcode),
    ("input_a", wordJson l.inputA),
    ("input_b", wordJson l.inputB),
    ("output", wordJson l.output)]

def UnitCounters.toJson (c : UnitCounters) : Json :=
  .record [
    ("phases", .nat c.phases),
    ("batches", .nat c.batches),
    ("operations", .nat c.operations),
    ("words_transferred", .nat c.wordsTransferred)]

def Stage.toJson (s : Stage) : Json := .text s.name

def batchJson (b : Nat × Nat) : Json := .array [.nat b.1, .nat b.2]

namespace VectorUnit

def Snapshot.toJson (s : Snapshot) : Json :=
  .record [
    ("memory", .list wordJson s.memory.toList),
    ("lanes", .list Lane.toJson s.lanes),
    ("busy", .bool s.busy),
    ("result", wordJson s.result),
    ("pending", .option Job.toJson s.pending),
    ("active", .option Job.toJson s.active),
    ("phase", .option Stage.toJson s.phase),
    ("batch", .option batchJson s.batch)]

namespace Event

def details : Event → List (String × Json)
  | .reset _ => []
  | .phase _ _ lanes micro => [("lanes", .list .nat lanes), ("micro", micro.toJson)]
  | .transfer _ direction words => [("direction", .text direction.name), ("words", .nat words)]
  | .complete _ op => [("op", .text op.name)]

def toJson (e : Event) : Json :=
  .record (("kind", .text e.kind) :: ("state", e.state.toJson) :: e.details)

end Event

end VectorUnit

end VectorMachine
