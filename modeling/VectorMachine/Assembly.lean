import VectorMachine.Assembly.Diagnostic
import VectorMachine.Assembly.Line
import VectorMachine.Instruction.Decode
import VectorMachine.Program

namespace VectorMachine.Assembly

structure Definition where
  line : Nat
  index : Nat
  deriving DecidableEq, Repr

structure Layout where
  definitions : NameMap Definition
  count : Nat
  deriving DecidableEq, Repr

namespace Layout

def empty : Layout := ⟨.empty, 0⟩

def add (t : Layout) (l : Line) : Layout where
  definitions :=
    match l.label with
    | none => t.definitions
    | some name => t.definitions.insertNew name ⟨l.number, t.count⟩
  count := if l.body.isSome then t.count + 1 else t.count

def ofLines (lines : List Line) : Layout :=
  lines.foldl add empty

end Layout

abbrev Definitions := NameMap Definition

def labelProblems (defs : Definitions) (l : Line) : List Problem :=
  match l.label with
  | none => []
  | some name =>
      match defs.find? name with
      | some d => if d.line = l.number then [] else [.duplicateLabel name]
      | none => []

def operandProblem? (defs : Definitions) (target : Bool) (token : String) : Option Problem :=
  match Operand.read token with
  | .error (.invalidRegister t) => some (.invalidRegister t)
  | .error _ => if target then some (.undefinedLabel token) else none
  | .ok (.label name) =>
      if target && (defs.find? name).isNone then some (.undefinedLabel name) else none
  | .ok _ => none

def vectorOpProblem? (token : String) : Option Problem :=
  if (VectorOp.ofName? token).isNone then some (.unknownVectorOp token) else none

def operandProblems (defs : Definitions) (op : Opcode) : List String → List Problem
  | [] => []
  | first :: rest =>
      (if op = .gexec then vectorOpProblem? first
        else operandProblem? defs op.controlTransfer first).toList ++
      rest.filterMap (operandProblem? defs false)

def countProblems (op : Opcode) (found : Nat) : List Problem :=
  if op.arity.accepts found then [] else [.operandCount op found]

def bodyProblems (defs : Definitions) (body : String) : List Problem :=
  match Instruction.tokens body with
  | [] => []
  | mnemonic :: args =>
      match Opcode.ofMnemonic? mnemonic with
      | none => [.unknownInstruction mnemonic]
      | some op => countProblems op args.length ++ operandProblems defs op args

def lineProblems (defs : Definitions) (l : Line) : List Problem :=
  labelProblems defs l ++ (l.body.toList.flatMap (bodyProblems defs))

def diagnose (defs : Definitions) (lines : List Line) : List Diagnostic :=
  lines.flatMap fun l => (lineProblems defs l).map fun p => ⟨l.number, p⟩

def link (defs : Definitions) (lines : List Line) : Program :=
  let numbered := lines.filterMap fun l => l.body.map fun body => (body, l.number)
  .ofParts (numbered.map Prod.fst) (defs.mapValues Definition.index) (numbered.map Prod.snd)

end VectorMachine.Assembly

namespace VectorMachine

open Assembly in
def assemble (source : String) : Except (List Diagnostic) Program :=
  let lines := linesOf source
  let defs := (Layout.ofLines lines).definitions
  match diagnose defs lines with
  | [] => .ok (link defs lines)
  | ds => .error ds

end VectorMachine
