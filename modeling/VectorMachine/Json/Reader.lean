import VectorMachine.Json.Token

namespace VectorMachine.Json

mutual

def valueOf (fuel : Nat) (ts : List Token) : Option (Json × List Token) :=
  match fuel, ts with
  | _ + 1, .null :: rest => some (.null, rest)
  | _ + 1, .bool b :: rest => some (.bool b, rest)
  | _ + 1, .number lexeme :: rest => some (.number lexeme, rest)
  | _ + 1, .string s :: rest => some (.string s, rest)
  | _ + 1, .leftBracket :: .rightBracket :: rest => some (.array [], rest)
  | n + 1, .leftBracket :: rest => (itemsOf n rest).map fun r => (.array r.1, r.2)
  | _ + 1, .leftBrace :: .rightBrace :: rest => some (.object [], rest)
  | n + 1, .leftBrace :: rest => (membersOf n rest).map fun r => (.object r.1, r.2)
  | _, _ => none

def itemsOf (fuel : Nat) (ts : List Token) : Option (List Json × List Token) :=
  match fuel with
  | 0 => none
  | n + 1 =>
      match valueOf n ts with
      | some (j, .comma :: rest) => (itemsOf n rest).map fun r => (j :: r.1, r.2)
      | some (j, .rightBracket :: rest) => some ([j], rest)
      | _ => none

def membersOf (fuel : Nat) (ts : List Token) :
    Option (List (Option String × Json) × List Token) :=
  match fuel, ts with
  | n + 1, .string k :: .colon :: rest =>
      match valueOf n rest with
      | some (j, .comma :: rest) => (membersOf n rest).map fun r => ((k, j) :: r.1, r.2)
      | some (j, .rightBrace :: rest) => some ([(k, j)], rest)
      | _ => none
  | _, _ => none

end

def fuelFor (ts : List Token) : Nat := 2 * ts.length + 1

def ofTokens? (ts : List Token) : Option Json :=
  match valueOf (fuelFor ts) ts with
  | some (j, []) => some j
  | _ => none

def read? (s : String) : Option Json :=
  (lex s.toList).bind ofTokens?

end VectorMachine.Json
