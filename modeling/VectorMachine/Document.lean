import VectorMachine.Assembly
import VectorMachine.Settings.Json

namespace VectorMachine

inductive FileError where
  | missing
  | notText
  deriving DecidableEq, Repr

def FileError.message : FileError → String
  | .missing => "No such file or directory (os error 2)"
  | .notText => "stream did not contain valid UTF-8"

def fileText (bytes : Option ByteArray) : Except FileError String :=
  match bytes with
  | none => .error .missing
  | some b =>
      match String.fromUTF8? b with
      | some s => .ok s
      | none => .error .notText

inductive LoadError where
  | unreadable (e : FileError)
  | problems (ds : List Assembly.Diagnostic)
  deriving DecidableEq, Repr

def LoadError.message : LoadError → String
  | .unreadable e => "could not read source: " ++ e.message
  | .problems ds => "assembly failed with " ++ toString ds.length ++ " diagnostic(s)"

def LoadError.diagnostics : LoadError → List Assembly.Diagnostic
  | .unreadable _ => []
  | .problems ds => ds

def loadProgram (bytes : Option ByteArray) : Except LoadError Program :=
  match fileText bytes with
  | .error e => .error (.unreadable e)
  | .ok source =>
      match assemble source with
      | .error ds => .error (.problems ds)
      | .ok p => .ok p

inductive SettingsError where
  | unreadable (e : FileError)
  | rejected (e : Settings.ReadError)
  deriving DecidableEq, Repr

def SettingsError.message : SettingsError → String
  | .unreadable e => "could not read configuration: " ++ e.message
  | .rejected .unreadable => "invalid configuration"
  | .rejected (.invalid e) => e.message

def loadSettings (bytes : Option ByteArray) : Except SettingsError Settings :=
  match fileText bytes with
  | .error e => .error (.unreadable e)
  | .ok s =>
      match Settings.read s with
      | .error e => .error (.rejected e)
      | .ok settings => .ok settings

end VectorMachine
