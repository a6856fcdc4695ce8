import PlanPlayback.Pddl.Domain
import PlanPlayback.Sexpr.Basic

/-!
# Typed lists

Types, constants, objects, parameters and functions are declared in lists of the form
`a b - t c - u d`: a dash gives the expression behind it as type to all items since the last dash.
Items that no dash follows have no type, and a dash with nothing behind it gives none.

* `typedItems` pairs the items of such a list with their types;
* `typedAtoms` keeps the items that are names, with a type of their own or a default.
-/

namespace PlanPlayback

/-- Whether an expression is the dash of a typed list. -/
def isDash (e : Sexpr) : Bool :=
  e.atom? == some "-"

/-- Pairs the items of a typed list with their types, where `pending` are the items since the last
dash. -/
def typedItemsFrom (pending : List Sexpr) : List Sexpr → List (Sexpr × Option String)
  | [] => pending.map fun item => (item, none)
  | item :: rest =>
      if isDash item then
        match rest with
        | [] => pending.map fun item => (item, none)
        | type :: others =>
            (pending.map fun item => (item, some type.render)) ++ typedItemsFrom [] others
      else typedItemsFrom (pending ++ [item]) rest

/-- The items of a typed list with their types. -/
def typedItems (items : List Sexpr) : List (Sexpr × Option String) :=
  typedItemsFrom [] items

/-- The names of a typed list, where a name without a type is of the root type. -/
def typedAtoms (items : List Sexpr) : List TypedName :=
  (typedItems items).filterMap fun (item, type) =>
    item.atom?.map fun name => ⟨name, type.getD rootType⟩

end PlanPlayback
