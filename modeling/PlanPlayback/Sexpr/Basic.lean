/-!
# S-expressions

An s-expression is an atom or a list of s-expressions.  This file holds the type, its written form
and the views that the readers of domains and problems take of it.

* `render` writes an expression with single blanks between the items of a list;
* `head?` and `tail` split a list at its leading atom;
* `atoms` are the atoms directly inside a list, `mentions` looks for an atom at any depth.
-/

namespace PlanPlayback

/-- An atom or a list of s-expressions. -/
inductive Sexpr where
  | atom (text : String)
  | list (items : List Sexpr)
  deriving Repr

namespace Sexpr

mutual

/-- The written form of an expression. -/
def render : Sexpr → String
  | .atom text => text
  | .list items => "(" ++ renderItems items ++ ")"

/-- The written forms of the items of a list, with single blanks between them. -/
def renderItems : List Sexpr → String
  | [] => ""
  | [item] => item.render
  | item :: next :: rest => item.render ++ " " ++ renderItems (next :: rest)

end

/-- The text of an atom. -/
def atom? : Sexpr → Option String
  | .atom text => some text
  | .list _ => none

/-- The items of a list. -/
def items? : Sexpr → Option (List Sexpr)
  | .atom _ => none
  | .list items => some items

/-- The items of a list; an atom has none. -/
def items : Sexpr → List Sexpr
  | .atom _ => []
  | .list items => items

/-- The atom that a list begins with. -/
def head? : Sexpr → Option String
  | .list (.atom text :: _) => some text
  | _ => none

/-- What follows the first item of a list. -/
def tail (e : Sexpr) : List Sexpr :=
  e.items.drop 1

/-- Whether an expression is a list. -/
def isList : Sexpr → Bool
  | .atom _ => false
  | .list _ => true

/-- The atoms among the items of a list. -/
def atoms (e : Sexpr) : List String :=
  e.items.filterMap atom?

mutual

/-- Whether an atom occurs in an expression, at any depth. -/
def mentions (name : String) : Sexpr → Bool
  | .atom text => text == name
  | .list items => anyMentions name items

/-- Whether an atom occurs in one of several expressions. -/
def anyMentions (name : String) : List Sexpr → Bool
  | [] => false
  | item :: rest => item.mentions name || anyMentions name rest

end

end Sexpr

end PlanPlayback
