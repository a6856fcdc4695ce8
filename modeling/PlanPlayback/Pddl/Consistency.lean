import PlanPlayback.Pddl.Problem

/-!
# Consistency of a problem with its domain

A problem is checked against a domain: the name of the domain, the types of the objects, the
predicates and arities of initial and goal literals, and the functions of initial values.  Nothing
found here is fatal.

* `Inconsistency` names the findings and words them;
* `inconsistencies` lists them in a fixed order.
-/

namespace PlanPlayback

/-- A way in which a problem does not fit a domain. -/
inductive Inconsistency where
  | otherDomain (referenced actual : String)
  | unknownType (object type : String)
  | unknownPredicate (predicate : String) (place : String)
  | wrongArity (predicate : String) (place : String) (declared given : Nat)
  | undeclaredFunction (function : String)
  deriving Repr, DecidableEq

/-- The wording of a finding. -/
def Inconsistency.message : Inconsistency → String
  | .otherDomain referenced actual =>
      "Problem references domain '" ++ referenced ++ "' but domain is '" ++ actual ++ "'"
  | .unknownType object type => "Object '" ++ object ++ "' has unknown type '" ++ type ++ "'"
  | .unknownPredicate predicate place => "Unknown predicate '" ++ predicate ++ "' in " ++ place
  | .wrongArity predicate place declared given =>
      "Predicate '" ++ predicate ++ "' in " ++ place ++ " expects " ++ toString declared ++
        " argument(s), got " ++ toString given
  | .undeclaredFunction function =>
      "Numeric init for undeclared function '" ++ function ++ "'"

namespace Domain

/-- What is wrong with a literal, if anything.  Equality of objects is built in. -/
def literalFault? (d : Domain) (place : String) (l : Literal) : Option Inconsistency :=
  let predicate := l.unsignedPredicate
  if predicate == "=" then none
  else
    match d.predicate? predicate with
    | none => some (.unknownPredicate predicate place)
    | some decl =>
        if decl.parameters.length ≠ l.args.length then
          some (.wrongArity predicate place decl.parameters.length l.args.length)
        else none

/-- Where a problem does not fit a domain.  Types are checked only if the domain declares some. -/
def inconsistencies (d : Domain) (p : Problem) : List Inconsistency :=
  (if p.domain != "" && p.domain != d.name then [.otherDomain p.domain d.name] else []) ++
    (if d.types.isEmpty then []
      else (p.objects.filter fun object => !d.knowsType object.type).map fun object =>
        .unknownType object.name object.type) ++
    p.init.filterMap (d.literalFault? "init") ++
    p.goal.filterMap (d.literalFault? "goal") ++
    (p.numericInit.filter fun init => (d.function? init.function).isNone).map fun init =>
      .undeclaredFunction init.function

end Domain

end PlanPlayback
