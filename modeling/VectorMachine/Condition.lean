namespace VectorMachine

inductive Condition where
  | zero
  | notZero
  | greater
  | greaterEqual
  | less
  | lessEqual
  | carry
  | noCarry
  deriving DecidableEq, Repr

namespace Condition

def all : List Condition :=
  [.zero, .notZero, .greater, .greaterEqual, .less, .lessEqual, .carry, .noCarry]

theorem mem_all (c : Condition) : c ∈ all := by
  cases c <;> decide

def mnemonic : Condition → String
  | .zero => "JZ"
  | .notZero => "JNZ"
  | .greater => "JG"
  | .greaterEqual => "JGE"
  | .less => "JL"
  | .lessEqual => "JLE"
  | .carry => "JC"
  | .noCarry => "JNC"

def name : Condition → String
  | .zero => "zero"
  | .notZero => "not_zero"
  | .greater => "greater"
  | .greaterEqual => "greater_equal"
  | .less => "less"
  | .lessEqual => "less_equal"
  | .carry => "carry"
  | .noCarry => "no_carry"

end Condition

end VectorMachine
