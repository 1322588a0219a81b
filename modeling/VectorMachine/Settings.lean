namespace VectorMachine

structure GeneralSettings where
  traceInstructions : Bool := false
  maxSteps : Nat := 100000
  deriving DecidableEq, Repr

structure UnitSettings where
  enabled : Bool := true
  lanes : Nat := 8
  deriving DecidableEq, Repr

structure Settings where
  general : GeneralSettings := {}
  unit : UnitSettings := {}
  deriving DecidableEq, Repr

namespace Settings

inductive Problem where
  | noLanes
  | noSteps
  deriving DecidableEq, Repr

def Problem.field : Problem → String
  | .noLanes => "compute.lanes"
  | .noSteps => "general.max_steps"

def Problem.message (e : Problem) : String :=
  "invalid configuration value for '" ++ e.field ++ "': must be at least 1"

def problem? (s : Settings) : Option Problem :=
  if s.unit.lanes = 0 then some .noLanes
  else if s.general.maxSteps = 0 then some .noSteps
  else none

theorem problem?_eq_none_iff {s : Settings} :
    s.problem? = none ↔ 0 < s.unit.lanes ∧ 0 < s.general.maxSteps := by
  unfold problem?
  split
  · simp_all
  · split
    · simp_all
    · simp; omega

end Settings

end VectorMachine
