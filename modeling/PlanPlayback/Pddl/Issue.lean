import PlanPlayback.Sexpr.Basic

/-!
# What a reader reports

The readers of domains and problems never stop at what they do not understand.  They leave it out
and report it.  This file names the findings and words them; `Parsed` pairs a value with the
findings made on the way.
-/

namespace PlanPlayback

/-- A part of a condition or of an effect that has no meaning. -/
inductive WalkIssue where
  | malformedCondition (e : Sexpr)
  | malformedEffect (e : Sexpr)
  | malformedNegation (e : Sexpr)
  | malformedNumericEffect (e : Sexpr)
  deriving Repr

/-- The wording of a finding inside a condition or an effect. -/
def WalkIssue.message : WalkIssue → String
  | .malformedCondition e => "Malformed condition '" ++ e.render ++ "'"
  | .malformedEffect e => "Malformed effect '" ++ e.render ++ "'"
  | .malformedNegation e => "Malformed negation '" ++ e.render ++ "'"
  | .malformedNumericEffect e => "Malformed numeric effect '" ++ e.render ++ "'"

/-- A part of a domain or a problem that was left out. -/
inductive FormIssue where
  | unexpectedItem (item : Sexpr)
  | missingDomainName
  | unknownDomainSection (keyword : String)
  | malformedPredicate (declaration : Sexpr)
  | malformedFunction (declaration : Sexpr)
  | namelessOperator (declaration : Sexpr)
  | missingValue (operator : String) (key : Sexpr)
  | unknownKey (operator : String) (key : Sexpr)
  | inOperator (operator : String) (issue : WalkIssue)
  | missingProblemName
  | missingProblemDomain
  | unknownProblemSection (keyword : String)
  | inGoal (issue : WalkIssue)
  | malformedNumericInit (entry : Sexpr)
  | malformedNegatedInit (entry : Sexpr)
  | timedLiteral (entry : Sexpr)
  | malformedInit (entry : Sexpr)
  | malformedMetric (declaration : Sexpr)
  | unknownDirection (direction : Sexpr)
  deriving Repr

/-- The wording of a finding. -/
def FormIssue.message : FormIssue → String
  | .unexpectedItem item => "Unexpected top-level item '" ++ item.render ++ "'"
  | .missingDomainName => "Domain name is missing"
  | .unknownDomainSection keyword => "Unknown domain section '" ++ keyword ++ "'"
  | .malformedPredicate declaration =>
      "Malformed predicate declaration '" ++ declaration.render ++ "'"
  | .malformedFunction declaration =>
      "Malformed function declaration '" ++ declaration.render ++ "'"
  | .namelessOperator declaration => "Operator without a name '" ++ declaration.render ++ "'"
  | .missingValue operator key =>
      "Operator '" ++ operator ++ "': missing value for '" ++ key.render ++ "'"
  | .unknownKey operator key => "Operator '" ++ operator ++ "': unknown key '" ++ key.render ++ "'"
  | .inOperator operator issue => "Operator '" ++ operator ++ "': " ++ issue.message
  | .missingProblemName => "Problem name is missing"
  | .missingProblemDomain => "Problem :domain is missing a name"
  | .unknownProblemSection keyword => "Unknown problem section '" ++ keyword ++ "'"
  | .inGoal issue => issue.message
  | .malformedNumericInit entry => "Malformed numeric init '" ++ entry.render ++ "'"
  | .malformedNegatedInit entry => "Malformed negated init '" ++ entry.render ++ "'"
  | .timedLiteral entry => "Timed initial literal skipped '" ++ entry.render ++ "'"
  | .malformedInit entry => "Malformed init entry '" ++ entry.render ++ "'"
  | .malformedMetric declaration => "Malformed metric '" ++ declaration.render ++ "'"
  | .unknownDirection direction => "Unknown metric direction '" ++ direction.render ++ "'"

/-- A value with what was left out on the way to it. -/
structure Parsed (α : Type) where
  value : α
  issues : List FormIssue
  deriving Repr

/-- Whether nothing was left out. -/
def Parsed.isClean {α : Type} (p : Parsed α) : Bool :=
  p.issues.isEmpty

end PlanPlayback
