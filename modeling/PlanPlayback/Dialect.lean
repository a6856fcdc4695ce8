/-!
# Planning dialects

A plan comes from one of five planning formulations, its `Dialect`.  A domain is assigned a
`DomainKind`: the dialect that its declarations point to, or `unknown`.
-/

namespace PlanPlayback

/-- One of the five planning formulations. -/
inductive Dialect where
  | classical
  | temporal
  | numeric
  | metricTemporal
  | pddlPlus
  deriving Repr, DecidableEq, Inhabited

namespace Dialect

/-- The dialects in the order in which they take precedence over each other. -/
def byPrecedence : List Dialect :=
  [.pddlPlus, .metricTemporal, .temporal, .numeric, .classical]

/-- The name of a dialect in machine-readable output. -/
def tag : Dialect → String
  | classical => "CLASSICAL"
  | temporal => "TEMPORAL"
  | numeric => "NUMERIC"
  | metricTemporal => "METRIC_TEMPORAL"
  | pddlPlus => "PDDL_PLUS"

/-- The dialect of a tag. -/
def ofTag? (text : String) : Option Dialect :=
  byPrecedence.find? fun dialect => dialect.tag == text

/-- The name of a dialect for readers. -/
def title : Dialect → String
  | classical => "Classical"
  | temporal => "Temporal"
  | numeric => "Numeric"
  | metricTemporal => "Metric-Temporal"
  | pddlPlus => "PDDL+"

/-- Whether the actions of a dialect carry durations of their own. -/
def isDurative : Dialect → Bool
  | temporal | metricTemporal | pddlPlus => true
  | classical | numeric => false

/-- Whether a dialect keeps numeric state. -/
def hasNumbers : Dialect → Bool
  | numeric | metricTemporal | pddlPlus => true
  | classical | temporal => false

end Dialect

/-- What the declarations of a domain point to. -/
inductive DomainKind where
  | of (dialect : Dialect)
  | unknown
  deriving Repr, DecidableEq

namespace DomainKind

instance : Inhabited DomainKind := ⟨unknown⟩

/-- The dialect that a domain is assigned, if any. -/
def dialect? : DomainKind → Option Dialect
  | of dialect => some dialect
  | unknown => none

/-- The name of a kind in machine-readable output. -/
def tag : DomainKind → String
  | of dialect => dialect.tag
  | unknown => "UNKNOWN"

/-- The kind of a tag. -/
def ofTag? (text : String) : Option DomainKind :=
  if text == "UNKNOWN" then some .unknown else (Dialect.ofTag? text).map .of

/-- The name of a kind for readers. -/
def title : DomainKind → String
  | of dialect => dialect.title
  | unknown => "Unknown"

/-- Whether a domain is classical. -/
def isClassical (kind : DomainKind) : Bool :=
  kind == .of .classical

end DomainKind

end PlanPlayback
