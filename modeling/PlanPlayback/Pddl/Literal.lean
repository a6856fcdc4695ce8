/-!
# Literals

A literal is a predicate with arguments, as it stands in conditions, effects, goals and initial
states.  A negated literal carries its sign in the predicate: `not-` in front of the name.  Inside
durative actions a literal holds at a certain point of the action, its timing.
-/

namespace PlanPlayback

/-- The point of an action at which a condition or an effect holds. -/
inductive Timing where
  | instant
  | atStart
  | atEnd
  | overAll
  deriving Repr, DecidableEq, Inhabited

namespace Timing

/-- The name of a timing in machine-readable output. -/
def tag : Timing → String
  | instant => "instant"
  | atStart => "at_start"
  | atEnd => "at_end"
  | overAll => "over_all"

end Timing

/-- A predicate with arguments. -/
structure Literal where
  predicate : String
  args : List String
  timing : Timing
  deriving Repr, DecidableEq

namespace Literal

/-- The mark of a negated literal, at the beginning of its predicate. -/
def negationMark : String := "not-"

/-- The negation of a literal. -/
def negate (l : Literal) : Literal :=
  { l with predicate := negationMark ++ l.predicate }

/-- Whether the predicate begins with the mark of negation. -/
def isNegated (l : Literal) : Bool :=
  negationMark.toList.isPrefixOf l.predicate.toList

/-- The predicate without the mark of negation. -/
def unsignedPredicate (l : Literal) : String :=
  if l.isNegated then String.ofList (l.predicate.toList.drop negationMark.length) else l.predicate

end Literal

end PlanPlayback
