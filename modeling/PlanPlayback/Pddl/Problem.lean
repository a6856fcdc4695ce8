import PlanPlayback.Pddl.Domain

/-!
# Planning problems

A problem names its domain, declares objects, and states the initial literals and numbers, the goal
and the metric.
-/

namespace PlanPlayback

/-- The initial value of a fluent. -/
structure InitialNumber where
  function : String
  args : List String
  value : Float
  deriving Repr

/-- The key of the fluent that an initial value belongs to. -/
def InitialNumber.key (init : InitialNumber) : String :=
  groundKey init.function init.args

/-- Whether a metric is to be made small or large. -/
inductive Direction where
  | minimize
  | maximize
  deriving Repr, DecidableEq

/-- The keyword of a direction. -/
def Direction.keyword : Direction → String
  | .minimize => "minimize"
  | .maximize => "maximize"

/-- What a problem asks to make small or large. -/
structure Metric where
  direction : Direction
  expression : Expression
  deriving Repr

/-- A planning problem. -/
structure Problem where
  name : String := ""
  domain : String := ""
  objects : List TypedName := []
  init : List Literal := []
  goal : List Literal := []
  numericInit : List InitialNumber := []
  metric : Option Metric := none
  deriving Repr

namespace Problem

/-- The first object with a name. -/
def object? (p : Problem) (name : String) : Option TypedName :=
  p.objects.find? fun object => object.name == name

/-- The objects declared with exactly the given type. -/
def objectsOfType (p : Problem) (type : String) : List TypedName :=
  p.objects.filter fun object => object.type == type

/-- The initial value of a fluent, if one is stated. -/
def initialValue? (p : Problem) (key : String) : Option Float :=
  (p.numericInit.find? fun init => init.key == key).map InitialNumber.value

end Problem

end PlanPlayback
