import VectorMachine.Json.Basic

namespace VectorMachine.Json

def namesText (members : List (Option String × Json)) : Bool :=
  members.all fun m => m.1.isSome

def occurrences (members : List (Option String × Json)) (name : String) : List Json :=
  members.filterMap fun m => if m.1 = some name then some m.2 else none

def member? (members : List (Option String × Json)) (name : String) : Option (Option Json) :=
  match occurrences members name with
  | [] => some none
  | [j] => some (some j)
  | _ => none

def fields? (names : List String) : Json → Option (List (Option Json))
  | .object members => if namesText members then names.mapM (member? members) else none
  | .array items =>
      if items.length ≤ names.length then
        some (items.map some ++ List.replicate (names.length - items.length) none)
      else none
  | _ => none

def orDefault {α : Type} (default : α) (read : Json → Option α) : Option Json → Option α
  | none => some default
  | some j => read j

end VectorMachine.Json
