import VectorMachine.Json.Reader
import VectorMachine.Json.Record
import VectorMachine.Settings

namespace VectorMachine

def GeneralSettings.ofJson? (j : Json) : Option GeneralSettings := do
  let default : GeneralSettings := {}
  match ← j.fields? ["trace_instructions", "max_steps"] with
  | [trace, steps] =>
      return {
        traceInstructions := ← Json.orDefault default.traceInstructions Json.bool? trace
        maxSteps := ← Json.orDefault default.maxSteps Json.natural? steps }
  | _ => none

def UnitSettings.ofJson? (j : Json) : Option UnitSettings := do
  let default : UnitSettings := {}
  match ← j.fields? ["enabled", "lanes"] with
  | [enabled, lanes] =>
      return {
        enabled := ← Json.orDefault default.enabled Json.bool? enabled
        lanes := ← Json.orDefault default.lanes Json.natural? lanes }
  | _ => none

namespace Settings

def ofJson? (j : Json) : Option Settings := do
  match ← j.fields? ["general", "compute"] with
  | [general, unit] =>
      return {
        general := ← Json.orDefault {} GeneralSettings.ofJson? general
        unit := ← Json.orDefault {} UnitSettings.ofJson? unit }
  | _ => none

def toJson (s : Settings) : Json :=
  .record [
    ("general", .record [
      ("trace_instructions", .bool s.general.traceInstructions),
      ("max_steps", .nat s.general.maxSteps)]),
    ("compute", .record [
      ("enabled", .bool s.unit.enabled),
      ("lanes", .nat s.unit.lanes)])]

inductive ReadError where
  | unreadable
  | invalid (e : Problem)
  deriving DecidableEq, Repr

def read (s : String) : Except ReadError Settings :=
  match (Json.read? s).bind ofJson? with
  | none => .error .unreadable
  | some settings =>
      match settings.problem? with
      | some e => .error (.invalid e)
      | none => .ok settings

end Settings

end VectorMachine
