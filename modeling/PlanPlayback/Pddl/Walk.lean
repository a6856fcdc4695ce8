import PlanPlayback.Decimal.Numeral
import PlanPlayback.Pddl.Domain
import PlanPlayback.Pddl.Issue

/-!
# Conditions and effects

A condition is a tree whose leaves are literals and comparisons; an effect is a tree whose leaves
are literals and numeric effects.  Walking a tree collects its leaves from left to right.

* Connectives are walked into all their parts, quantifiers and `when` into the last part.
* A wrapper `(at start X)`, `(at end X)` or `(over all X)` gives its timing to the leaves of `X`,
  unless an inner wrapper gives another.
* The empty list has no leaves.  Any other list that does not begin with an atom is reported.

## Main definitions

* `Expression.ofSexpr` reads a numeric expression;
* `conditions` and `effects` are the two walks, and `Leaves` is what they collect.
-/

namespace PlanPlayback

mutual

/-- The numeric expression that an s-expression stands for: a literal, a bare name, an operator
with operands or a function of objects.  A list without a leading atom counts as zero. -/
def Expression.ofSexpr : Sexpr → Expression
  | .atom text =>
      match Decimal.floatOf? text with
      | some value => .number value
      | none => .variable text
  | .list (.atom head :: rest) =>
      if ["+", "-", "*", "/"].contains head then .operation head (Expression.ofSexprs rest)
      else .fluent head (rest.filterMap Sexpr.atom?)
  | .list _ => .number 0.0

/-- The numeric expressions that several s-expressions stand for. -/
def Expression.ofSexprs : List Sexpr → List Expression
  | [] => []
  | e :: rest => Expression.ofSexpr e :: Expression.ofSexprs rest

end

/-- The leaves of a condition or an effect, and what had no meaning in it. -/
structure Leaves where
  literals : List Literal := []
  comparisons : List Comparison := []
  numericEffects : List NumericEffect := []
  issues : List WalkIssue := []
  deriving Repr

namespace Leaves

/-- The leaves of one tree before those of another. -/
def append (first second : Leaves) : Leaves :=
  ⟨first.literals ++ second.literals, first.comparisons ++ second.comparisons,
    first.numericEffects ++ second.numericEffects, first.issues ++ second.issues⟩

instance : Append Leaves := ⟨append⟩

/-- A single literal. -/
def literal (l : Literal) : Leaves := { literals := [l] }

/-- A single finding. -/
def issue (i : WalkIssue) : Leaves := { issues := [i] }

end Leaves

/-- The literal that an s-expression stands for: its leading atom and the further atoms in it. -/
def Literal.ofSexpr? (timing : Timing) (e : Sexpr) : Option Literal :=
  e.head?.map fun predicate => ⟨predicate, e.tail.filterMap Sexpr.atom?, timing⟩

/-- The timing of a wrapper with the given leading atom and further items. -/
def wrapperTiming? (head : String) : List Sexpr → Option Timing
  | [.atom second, _] =>
      if head == "at" && second == "start" then some .atStart
      else if head == "at" && second == "end" then some .atEnd
      else if head == "over" && second == "all" then some .overAll
      else none
  | _ => none

/-- Whether an s-expression can only be a number, as a side of a comparison. -/
def isOperand : Sexpr → Bool
  | .list _ => true
  | .atom text => (Decimal.floatOf? text).isSome || text == "#t" || text == "?duration"

/-- The comparison that a list stands for, given its leading atom and further items. -/
def Comparison.of? (timing : Timing) (head : String) : List Sexpr → Option Comparison
  | [left, right] =>
      if [">", ">=", "<", "<=", "="].contains head &&
          (isOperand left || isOperand right) then
        some ⟨head, Expression.ofSexpr left, Expression.ofSexpr right, timing⟩
      else none
  | _ => none

/-- The leaf under a negation: the negated first item, if it is a literal. -/
def negationLeaf (timing : Timing) (whole : Sexpr) (rest : List Sexpr) : Leaves :=
  match rest.head?.bind (Literal.ofSexpr? timing) with
  | some inner => .literal inner.negate
  | none => .issue (.malformedNegation whole)

/-- The leaf of a condition that begins with an atom and is neither wrapper nor connective. -/
def conditionLeaf (timing : Timing) (head : String) (rest : List Sexpr) : Leaves :=
  match Comparison.of? timing head rest with
  | some comparison => { comparisons := [comparison] }
  | none => .literal ⟨head, rest.filterMap Sexpr.atom?, timing⟩

mutual

/-- The leaves of a condition. -/
def conditions (timing : Timing) : Sexpr → Leaves
  | .atom text => .issue (.malformedCondition (.atom text))
  | .list [] => {}
  | .list (.list inner :: rest) => .issue (.malformedCondition (.list (.list inner :: rest)))
  | .list (.atom head :: rest) =>
      match wrapperTiming? head rest with
      | some inner => conditionsOfLast inner rest
      | none =>
          if ["and", "or", "imply"].contains head then conditionsOfAll timing rest
          else if ["exists", "forall", "preference"].contains head then
            conditionsOfLast timing rest
          else if head == "not" then negationLeaf timing (.list (.atom head :: rest)) rest
          else conditionLeaf timing head rest

/-- The leaves of several conditions. -/
def conditionsOfAll (timing : Timing) : List Sexpr → Leaves
  | [] => {}
  | e :: rest => conditions timing e ++ conditionsOfAll timing rest

/-- The leaves of the last of several conditions. -/
def conditionsOfLast (timing : Timing) : List Sexpr → Leaves
  | [] => {}
  | [e] => conditions timing e
  | _ :: next :: rest => conditionsOfLast timing (next :: rest)

end

/-- The fluent that a numeric effect or an initial value is about: a bare name, or a list of atoms
of which the first is the name. -/
def fluentTarget? : Sexpr → Option (String × List String)
  | .atom name => some (name, [])
  | .list items => (Sexpr.list items).head?.map fun name =>
      (name, ((Sexpr.list items).atoms).drop 1)

/-- The numeric effect that an update and its two operands stand for. -/
def NumericEffect.of? (timing : Timing) (update : Update) : List Sexpr → Option NumericEffect
  | [target, amount] =>
      (fluentTarget? target).map fun (function, args) =>
        ⟨function, args, update, Expression.ofSexpr amount, timing⟩
  | _ => none

/-- The leaf of an effect that begins with an atom and is neither wrapper nor connective. -/
def effectLeaf (timing : Timing) (head : String) (rest : List Sexpr) : Leaves :=
  match Update.ofKeyword? head with
  | some update =>
      match NumericEffect.of? timing update rest with
      | some effect => { numericEffects := [effect] }
      | none => .issue (.malformedNumericEffect (.list (.atom head :: rest)))
  | none => .literal ⟨head, rest.filterMap Sexpr.atom?, timing⟩

mutual

/-- The leaves of an effect. -/
def effects (timing : Timing) : Sexpr → Leaves
  | .atom text => .issue (.malformedEffect (.atom text))
  | .list [] => {}
  | .list (.list inner :: rest) => .issue (.malformedEffect (.list (.list inner :: rest)))
  | .list (.atom head :: rest) =>
      match wrapperTiming? head rest with
      | some inner => effectsOfLast inner rest
      | none =>
          if head == "and" then effectsOfAll timing rest
          else if ["forall", "when"].contains head then effectsOfLast timing rest
          else if head == "not" then negationLeaf timing (.list (.atom head :: rest)) rest
          else effectLeaf timing head rest

/-- The leaves of several effects. -/
def effectsOfAll (timing : Timing) : List Sexpr → Leaves
  | [] => {}
  | e :: rest => effects timing e ++ effectsOfAll timing rest

/-- The leaves of the last of several effects. -/
def effectsOfLast (timing : Timing) : List Sexpr → Leaves
  | [] => {}
  | [e] => effects timing e
  | _ :: next :: rest => effectsOfLast timing (next :: rest)

end

end PlanPlayback
