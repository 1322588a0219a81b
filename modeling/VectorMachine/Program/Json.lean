import VectorMachine.Json.Printer
import VectorMachine.Json.Reader
import VectorMachine.Json.Record
import VectorMachine.Program

namespace VectorMachine.Program

def toJson (p : Program) : Json :=
  .record [
    ("instructions", .list .text p.instructions.toList),
    ("labels", .record (p.labels.entries.map fun e => (e.1, .nat e.2))),
    ("source_lines", .list .nat p.lines.toList)]

def labelsOf? : Json → Option (NameMap Nat)
  | .object members => do
      let entries ← members.mapM fun m => do return (← m.1, ← m.2.natural?)
      return .ofList entries
  | _ => none

def ofJson? (j : Json) : Option Program := do
  match ← j.fields? ["instructions", "labels", "source_lines"] with
  | [some instructions, some labels, some lines] =>
      let texts ← (← instructions.items?).mapM Json.text?
      let table ← labelsOf? labels
      let numbers ← (← lines.items?).mapM Json.natural?
      return ⟨texts.toArray, table, numbers.toArray⟩
  | _ => none

def print (p : Program) : String := p.toJson.print

def read? (s : String) : Option Program :=
  (Json.read? s).bind ofJson?

end VectorMachine.Program
