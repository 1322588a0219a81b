import VectorMachine.Condition
import VectorMachine.Word

namespace VectorMachine

structure Flags where
  zero : Bool := false
  negative : Bool := false
  carry : Bool := false
  deriving DecidableEq, Repr

namespace Flags

def ofRaw (raw : Int64) : Flags where
  zero := raw == 0
  negative := raw < 0 || (Word.ofRaw raw).signed
  carry := raw < 0 || 65535 < raw

def satisfies (f : Flags) : Condition → Bool
  | .zero => f.zero
  | .notZero => !f.zero
  | .greater => !f.zero && !f.negative
  | .greaterEqual => !f.negative
  | .less => f.negative
  | .lessEqual => f.zero || f.negative
  | .carry => f.carry
  | .noCarry => !f.carry

def bit (b : Bool) : String :=
  if b then "1" else "0"

def text (f : Flags) : String :=
  "Z=" ++ bit f.zero ++ " N=" ++ bit f.negative ++ " C=" ++ bit f.carry

end Flags

end VectorMachine
