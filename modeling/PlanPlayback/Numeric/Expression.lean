import PlanPlayback.Decimal.Shortest
import PlanPlayback.Numeric.Key

/-!
# Numeric expressions

The operands of numeric effects and conditions, and the metric of a problem, are expressions over
fluents.  This file holds

* the type `Expression` and its written form `render`;
* `substitute`, which puts objects in the place of parameters;
* `evaluate`, the value of an expression under an assignment of numbers to keys;
* `functionsRead`, the functions that an expression reads.

An operation has a value only if all operands have one and the operator fits their number:
`+`, `-` and `*` take one operand or more (a single operand of `-` is negated), `/` takes two and
has no value when the second is zero.
-/

namespace PlanPlayback

/-- A numeric expression: a number, a function of objects, a bare name such as `?duration`, or an
operator with its operands. -/
inductive Expression where
  | number (value : Float)
  | fluent (name : String) (args : List String)
  | variable (name : String)
  | operation (operator : String) (operands : List Expression)
  deriving Repr

/-- Objects in the place of parameters, later pairs over earlier ones. -/
abbrev Bindings := List (String × String)

namespace Bindings

/-- The object that takes the place of a name, or the name itself. -/
def resolve (bindings : Bindings) (name : String) : String :=
  (bindings.reverse.lookup name).getD name

end Bindings

namespace Expression

/-- The value of a literal. -/
def number? : Expression → Option Float
  | .number value => some value
  | _ => none

mutual

/-- An expression with objects in the place of parameters. -/
def substitute (bindings : Bindings) : Expression → Expression
  | .number value => .number value
  | .fluent name args => .fluent name (args.map bindings.resolve)
  | .variable name => .variable (bindings.resolve name)
  | .operation operator operands => .operation operator (substituteAll bindings operands)

/-- Several expressions with objects in the place of parameters. -/
def substituteAll (bindings : Bindings) : List Expression → List Expression
  | [] => []
  | operand :: rest => operand.substitute bindings :: substituteAll bindings rest

end

/-- The value of an operator on the values of its operands. -/
def combine (operator : String) : List Float → Option Float
  | [] => none
  | [only] =>
      if operator == "-" then some (-only)
      else if operator == "+" || operator == "*" then some only
      else none
  | first :: second :: rest =>
      if operator == "+" then some ((second :: rest).foldl (· + ·) first)
      else if operator == "-" then some ((second :: rest).foldl (· - ·) first)
      else if operator == "*" then some ((second :: rest).foldl (· * ·) first)
      else if operator == "/" && rest.isEmpty && second != 0.0 then some (first / second)
      else none

mutual

/-- The value of an expression when `lookup` gives the values of fluents and bare names. -/
def evaluate (lookup : String → Option Float) : Expression → Option Float
  | .number value => some value
  | .fluent name args => lookup (groundKey name args)
  | .variable name => lookup name
  | .operation operator operands => (evaluateAll lookup operands).bind (combine operator)

/-- The values of several expressions, if all have one. -/
def evaluateAll (lookup : String → Option Float) : List Expression → Option (List Float)
  | [] => some []
  | operand :: rest =>
      match operand.evaluate lookup, evaluateAll lookup rest with
      | some value, some values => some (value :: values)
      | _, _ => none

end

mutual

/-- The names of the functions in an expression, from left to right. -/
def functionsRead : Expression → List String
  | .number _ => []
  | .fluent name _ => [name]
  | .variable _ => []
  | .operation _ operands => functionsReadByAll operands

/-- The names of the functions in several expressions, from left to right. -/
def functionsReadByAll : List Expression → List String
  | [] => []
  | operand :: rest => operand.functionsRead ++ functionsReadByAll rest

end

mutual

/-- The written form of an expression. -/
def render : Expression → String
  | .number value => Decimal.positional value
  | .fluent name args =>
      if args.isEmpty then "(" ++ name ++ ")" else "(" ++ name ++ " " ++ " ".intercalate args ++ ")"
  | .variable name => name
  | .operation operator operands => "(" ++ operator ++ renderOperands operands ++ ")"

/-- The written forms of several operands, each with a blank in front. -/
def renderOperands : List Expression → String
  | [] => ""
  | operand :: rest => " " ++ operand.render ++ renderOperands rest

end

end Expression

end PlanPlayback
