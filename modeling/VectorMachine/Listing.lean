import VectorMachine.Program
import VectorMachine.Text.Decimal

namespace VectorMachine.Program

def labelsAt (p : Program) (index : Nat) : List String :=
  (p.labels.entries.filter fun e => e.2 == index).map Prod.fst

def listingRow (p : Program) (index : Nat) (text : String) : String :=
  "  " ++ Text.padLeft 4 (toString index) ++ "  " ++ Text.padRight 32 text ++ " ; line " ++
    toString ((p.line? index).getD 0) ++ "\n"

def listingEntry (p : Program) (index : Nat) (text : String) : String :=
  String.join ((p.labelsAt index).map fun name => name ++ ":\n") ++ p.listingRow index text

def listing (p : Program) : String :=
  String.join (p.instructions.toList.mapIdx p.listingEntry)

end VectorMachine.Program
