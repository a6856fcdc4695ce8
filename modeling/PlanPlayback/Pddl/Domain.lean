import PlanPlayback.Numeric.Expression
import PlanPlayback.Numeric.Update
import PlanPlayback.Pddl.Literal
import PlanPlayback.Text.Blank

/-!
# Planning domains

A domain declares types, constants, predicates, functions and operators.  This file holds the
records and the questions that other parts ask of them.

* `Operator` is an action, a durative action, a process or an event;
* `Domain.operators` lists all of them, the actions first;
* `Domain.ancestors` and `Domain.isSubtype` follow the declared types upwards.

Every type descends from `object`, whether this is declared or not.
-/

namespace PlanPlayback

/-- The type that every other type descends from. -/
def rootType : String := "object"

/-- A name with its type: a parameter, a constant or an object. -/
structure TypedName where
  name : String
  type : String
  deriving Repr, DecidableEq

/-- A declared type with its parent, if one is declared. -/
structure TypeDecl where
  name : String
  parent : Option String
  deriving Repr, DecidableEq

/-- A declared predicate. -/
structure PredicateDecl where
  name : String
  parameters : List TypedName
  deriving Repr, DecidableEq

/-- A declared function with the type of its values, if one is declared. -/
structure FunctionDecl where
  name : String
  parameters : List TypedName
  returns : Option String
  deriving Repr, DecidableEq

/-- A comparison of two numeric expressions. -/
structure Comparison where
  comparator : String
  left : Expression
  right : Expression
  timing : Timing
  deriving Repr

/-- A declared change of a fluent. -/
structure NumericEffect where
  function : String
  args : List String
  update : Update
  amount : Expression
  timing : Timing
  deriving Repr

/-- The key of the fluent that a numeric effect changes, parameters included. -/
def NumericEffect.key (effect : NumericEffect) : String :=
  groundKey effect.function effect.args

/-- The four kinds of operators. -/
inductive OperatorKind where
  | action
  | durativeAction
  | process
  | event
  deriving Repr, DecidableEq

/-- The name of an operator kind in machine-readable output. -/
def OperatorKind.tag : OperatorKind → String
  | .action => "action"
  | .durativeAction => "durative_action"
  | .process => "process"
  | .event => "event"

/-- An operator of a domain, with the text that it was declared by. -/
structure Operator where
  name : String
  kind : OperatorKind
  parameters : List TypedName := []
  duration : Option String := none
  preconditions : List Literal := []
  comparisons : List Comparison := []
  effects : List Literal := []
  numericEffects : List NumericEffect := []
  source : String := ""
  deriving Repr

namespace Operator

/-- Whether an operator is written as a durative one: by its kind, by a duration, or by a timing
that occurs in its text. -/
def isDurative (op : Operator) : Bool :=
  op.kind == .durativeAction || op.duration.isSome ||
    ["at start", "at end", "over all"].any (Text.contains op.source)

/-- Whether an operator changes fluents. -/
def changesNumbers (op : Operator) : Bool :=
  !op.numericEffects.isEmpty

end Operator

/-- A planning domain. -/
structure Domain where
  name : String := ""
  requirements : List String := []
  types : List TypeDecl := []
  constants : List TypedName := []
  predicates : List PredicateDecl := []
  functions : List FunctionDecl := []
  actions : List Operator := []
  processes : List Operator := []
  events : List Operator := []
  deriving Repr

namespace Domain

/-- Whether a domain states a requirement. -/
def requires (d : Domain) (requirement : String) : Bool :=
  d.requirements.contains requirement

/-- The first declaration of a type. -/
def typeDecl? (d : Domain) (name : String) : Option TypeDecl :=
  d.types.find? fun decl => decl.name == name

/-- The first declaration of a predicate. -/
def predicate? (d : Domain) (name : String) : Option PredicateDecl :=
  d.predicates.find? fun decl => decl.name == name

/-- The first declaration of a function. -/
def function? (d : Domain) (name : String) : Option FunctionDecl :=
  d.functions.find? fun decl => decl.name == name

/-- All operators: actions, then processes, then events. -/
def operators (d : Domain) : List Operator :=
  d.actions ++ d.processes ++ d.events

/-- The first operator with a name. -/
def operator? (d : Domain) (name : String) : Option Operator :=
  d.operators.find? fun op => op.name == name

/-- Whether a type is declared, stands as the parent of a declared type, or is `object`. -/
def knowsType (d : Domain) (name : String) : Bool :=
  name == rootType || (d.typeDecl? name).isSome || d.types.any fun decl => decl.parent == some name

/-- The declared parent of a type. -/
def parent? (d : Domain) (name : String) : Option String :=
  (d.typeDecl? name).bind TypeDecl.parent

/-- The number of steps that a walk along the declared parents takes at most. -/
def climbLimit : Nat := 64

/-- The walk from `current` along the declared parents.  It ends where no parent is declared, after
`steps` steps, or when it would meet `start` or one of `visited` again. -/
def climb (d : Domain) (start : String) (visited : List String) (current : String) :
    Nat → List String
  | 0 => []
  | steps + 1 =>
      match d.parent? current with
      | none => []
      | some parent =>
          if parent == start || visited.contains parent then []
          else parent :: d.climb start (visited ++ [parent]) parent steps

/-- The ancestors of a type, nearest first; the last of them is `object`. -/
def ancestors (d : Domain) (name : String) : List String :=
  let declared := d.climb name [] name climbLimit
  if declared.getLast? != some rootType && name != rootType then declared ++ [rootType]
  else declared

/-- Whether a type is the type `ancestor` or descends from it. -/
def isSubtype (d : Domain) (child ancestor : String) : Bool :=
  child == ancestor || (d.ancestors child).contains ancestor

end Domain

end PlanPlayback
