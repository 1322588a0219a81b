import VectorMachine.Document
import VectorMachine.Json.Printer
import VectorMachine.Listing
import VectorMachine.Processor.Json
import VectorMachine.Program.Json
import VectorMachine.Report
import VectorMachine.Simulator

namespace VectorMachine.CommandLine

structure RunOptions where
  path : Option String := none
  config : Option String := none
  micro : Bool := false
  maxSteps : Option Nat := none
  trace : Bool := false
  events : Bool := false
  json : Bool := false
  deriving DecidableEq, Repr

structure AsmOptions where
  path : Option String := none
  json : Bool := false
  deriving DecidableEq, Repr

inductive Command where
  | asm (path : String) (json : Bool)
  | run (path : String) (options : RunOptions)
  deriving DecidableEq, Repr

def after? (lead s : String) : Option String :=
  if lead.toList.isPrefixOf s.toList then some (String.ofList (s.toList.drop lead.length)) else none

def looksLikeOption (s : String) : Bool :=
  s.startsWith "-" && s != "-"

def stepCount? (s : String) : Option Nat :=
  let digits := match s.toList with
    | '+' :: ds => ds
    | ds => ds
  (Text.decimal? digits).filter fun n => n < UInt64.size

namespace AsmOptions

def setPath (o : AsmOptions) (s : String) : Option AsmOptions :=
  if o.path.isSome then none else some { o with path := some s }

def setJson (o : AsmOptions) : Option AsmOptions :=
  if o.json then none else some { o with json := true }

def readPaths (o : AsmOptions) (args : List String) : Option AsmOptions :=
  args.foldlM setPath o

def read (o : AsmOptions) : List String → Option AsmOptions
  | [] => some o
  | "--" :: rest => o.readPaths rest
  | "--json" :: rest => o.setJson.bind fun o => o.read rest
  | s :: rest => if looksLikeOption s then none else (o.setPath s).bind fun o => o.read rest

end AsmOptions

namespace RunOptions

def setPath (o : RunOptions) (s : String) : Option RunOptions :=
  if o.path.isSome then none else some { o with path := some s }

def setConfig (o : RunOptions) (s : String) : Option RunOptions :=
  if o.config.isSome then none else some { o with config := some s }

def setMaxSteps (o : RunOptions) (s : String) : Option RunOptions :=
  if o.maxSteps.isSome then none
  else (stepCount? s).map fun n => { o with maxSteps := some n }

def readPaths (o : RunOptions) (args : List String) : Option RunOptions :=
  args.foldlM setPath o

def setSwitch (o : RunOptions) : String → Option RunOptions
  | "--micro" => if o.micro then none else some { o with micro := true }
  | "--trace" => if o.trace then none else some { o with trace := true }
  | "--events" => if o.events then none else some { o with events := true }
  | "--json" => if o.json then none else some { o with json := true }
  | _ => none

def setJoined (o : RunOptions) (s : String) : Option RunOptions :=
  match after? "--config=" s, after? "--max-steps=" s, after? "-c=" s, after? "-c" s with
  | some value, _, _, _ => o.setConfig value
  | _, some value, _, _ => o.setMaxSteps value
  | _, _, some value, _ => o.setConfig value
  | _, _, _, some value => o.setConfig value
  | _, _, _, _ => o.setSwitch s

def read (o : RunOptions) : List String → Option RunOptions
  | [] => some o
  | "--" :: rest => o.readPaths rest
  | "-c" :: value :: rest =>
      if looksLikeOption value then none else (o.setConfig value).bind fun o => o.read rest
  | "--config" :: value :: rest =>
      if looksLikeOption value then none else (o.setConfig value).bind fun o => o.read rest
  | "--max-steps" :: value :: rest => (o.setMaxSteps value).bind fun o => o.read rest
  | s :: rest =>
      if looksLikeOption s then (o.setJoined s).bind fun o => o.read rest
      else (o.setPath s).bind fun o => o.read rest

end RunOptions

def Command.read? : List String → Option Command
  | "asm" :: args => do
      let o ← AsmOptions.read {} args
      return .asm (← o.path) o.json
  | "run" :: args => do
      let o ← RunOptions.read {} args
      return .run (← o.path) o
  | _ => none

def Command.paths : Command → List String
  | .asm path _ => [path]
  | .run path o => path :: o.config.toList

abbrev Files := String → Option ByteArray

structure Answer where
  code : Nat
  stdout : String := ""
  stderr : String := ""
  deriving DecidableEq, Repr

def loadComplaint (path : String) : LoadError → String
  | .problems ds =>
      String.join (ds.map fun d => path ++ ": " ++ d.message ++ "\n") ++
        "[!] " ++ toString ds.length ++ " diagnostic(s), no program produced\n"
  | e => "[!] " ++ path ++ ": " ++ e.message ++ "\n"

def asm (files : Files) (path : String) (json : Bool) : Answer :=
  match loadProgram (files path) with
  | .error e => { code := 1, stderr := loadComplaint path e }
  | .ok p => { code := 0, stdout := if json then p.print ++ "\n" else p.listing }

def override (o : RunOptions) (s : GeneralSettings) : GeneralSettings where
  traceInstructions := s.traceInstructions || o.trace
  maxSteps := (o.maxSteps.map fun n => max n 1).getD s.maxSteps

def runSettings (files : Files) (o : RunOptions) : Except SettingsError Settings :=
  let fromFile : Except SettingsError Settings :=
    match o.config with
    | none => .ok {}
    | some path => loadSettings (files path)
  fromFile.map fun s => { s with general := override o s.general }

def verdict : Outcome → String
  | .halted n => "\n[*] Halted after " ++ toString n ++ " instruction(s)\n"
  | .faulted n f => "\n[!] FATAL after " ++ toString n ++ " instruction(s): " ++ f.message ++ "\n"
  | .stepLimit n => "\n[!] Step limit reached after " ++ toString n ++ " instruction(s)\n"

def report (outcome : Outcome) (p : Processor) : String :=
  verdict outcome ++ p.dump ++ Report.processor p.counters ++
    match p.unit with
    | none => ""
    | some u => Report.unit u.counters

def jsonReport (outcome : Outcome) (p : Processor) : String :=
  let whole : Json := .record [
    ("outcome", outcome.toJson),
    ("state", p.snapshot.toJson),
    ("stats", p.counters.toJson),
    ("compute", .option (fun u => u.counters.toJson) p.unit)]
  whole.sorted.print ++ "\n"

def exitCode : Outcome → Nat
  | .halted _ => 0
  | _ => 1

def listen (p : Processor) : Processor :=
  let heard := (p.subscribe 0).2
  { heard with unit := heard.unit.map fun u => (u.subscribe 0).2 }

def eventLines (events : List (Nat × Event)) : String :=
  String.join (events.map fun e => e.2.toJson.print ++ "\n")

def runProgram (s : Settings) (o : RunOptions) (program : Program) : Answer :=
  let loaded := ((Simulator.new s).load program).1
  let ready := if o.events then { loaded with processor := listen loaded.processor } else loaded
  let (outcome, done, events) := ready.run (if o.micro then .micro else .whole)
  let p := done.processor
  { code := exitCode outcome
    stdout := eventLines (p.deliver events) ++
      if o.json then jsonReport outcome p else report outcome p }

def run (files : Files) (path : String) (o : RunOptions) : Answer :=
  match runSettings files o with
  | .error e => { code := 2, stderr := "[!] " ++ e.message ++ "\n" }
  | .ok s =>
      match loadProgram (files path) with
      | .error e => { code := 1, stderr := loadComplaint path e }
      | .ok program => runProgram s o program

def usage : String :=
  "Usage: sim asm PATH [--json]\n" ++
    "       sim run PATH [-c CONFIG] [--micro] [--max-steps N] [--trace] [--events] [--json]\n"

def execute (files : Files) (args : List String) : Answer :=
  match Command.read? args with
  | some (.asm path json) => asm files path json
  | some (.run path o) => run files path o
  | none => { code := 2, stderr := usage }

end VectorMachine.CommandLine
