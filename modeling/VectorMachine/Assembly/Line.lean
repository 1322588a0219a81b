import VectorMachine.Text.Pieces
import VectorMachine.Token

namespace VectorMachine.Assembly

structure Line where
  number : Nat
  label : Option String
  body : Option String
  deriving DecidableEq, Repr

namespace Line

def opensComment (c : Char) : Bool :=
  c == ';' || c == '#'

def content (cs : List Char) : List Char :=
  Text.trim (cs.takeWhile fun c => !opensComment c)

def nonempty (cs : List Char) : Option String :=
  if cs.isEmpty then none else some (String.ofList cs)

def labelName? (text : List Char) : Option (List Char) :=
  let head := Text.trim (text.takeWhile fun c => c != ':')
  if text.contains ':' && Token.isIdentifier head then some head else none

def read (number : Nat) (cs : List Char) : Line :=
  let text := content cs
  match labelName? text with
  | some name =>
      ⟨number, some (String.ofList name),
        nonempty (Text.trim ((text.dropWhile fun c => c != ':').drop 1))⟩
  | none => ⟨number, none, nonempty text⟩

end Line

def linesOf (source : String) : List Line :=
  (Text.pieces (fun c => c == '\n') source.toList).mapIdx fun i cs => Line.read (i + 1) cs

end VectorMachine.Assembly
