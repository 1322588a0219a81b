import VectorMachine.Json.Basic

namespace VectorMachine.Json

def escape (c : Char) : List Char :=
  if c = '"' then ['\\', '"']
  else if c = '\\' then ['\\', '\\']
  else if c = '\n' then ['\\', 'n']
  else if c = '\r' then ['\\', 'r']
  else if c = '\t' then ['\\', 't']
  else if c = '\x08' then ['\\', 'b']
  else if c = '\x0c' then ['\\', 'f']
  else if c.toNat < 32 then '\\' :: 'u' :: Text.hexFour c.toNat
  else [c]

def quoted : Option String → List Char
  | some s => s.toList.flatMap escape
  | none => ['\\', 'u', 'd', '8', '0', '0']

def writeString (s : Option String) (rest : List Char) : List Char :=
  '"' :: (quoted s ++ '"' :: rest)

mutual

def write : Json → List Char → List Char
  | .null, rest => 'n' :: 'u' :: 'l' :: 'l' :: rest
  | .bool true, rest => 't' :: 'r' :: 'u' :: 'e' :: rest
  | .bool false, rest => 'f' :: 'a' :: 'l' :: 's' :: 'e' :: rest
  | .number lexeme, rest => lexeme.toList ++ rest
  | .string s, rest => writeString s rest
  | .array [], rest => '[' :: ']' :: rest
  | .array (j :: js), rest => '[' :: write j (writeItems js rest)
  | .object [], rest => '{' :: '}' :: rest
  | .object ((k, j) :: ms), rest => '{' :: writeString k (':' :: write j (writeMembers ms rest))

def writeItems : List Json → List Char → List Char
  | [], rest => ']' :: rest
  | j :: js, rest => ',' :: write j (writeItems js rest)

def writeMembers : List (Option String × Json) → List Char → List Char
  | [], rest => '}' :: rest
  | (k, j) :: ms, rest => ',' :: writeString k (':' :: write j (writeMembers ms rest))

end

def print (j : Json) : String :=
  String.ofList (j.write [])

mutual

def sorted : Json → Json
  | .array items => .array (sortedItems items)
  | .object members =>
      .object ((sortedMembers members).mergeSort fun a b => decide (a.1.getD "" ≤ b.1.getD ""))
  | j => j

def sortedItems : List Json → List Json
  | [] => []
  | j :: js => j.sorted :: sortedItems js

def sortedMembers : List (Option String × Json) → List (Option String × Json)
  | [] => []
  | (k, j) :: ms => (k, j.sorted) :: sortedMembers ms

end

end VectorMachine.Json
