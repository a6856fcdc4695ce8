import PlanPlayback.Console.Record
import PlanPlayback.Text.CharClass

/-!
# Filters

A filter says which records are shown.  It is written as a list of rules with commas between them.
A rule is a level, a target, or a target and a level with an equals sign between them:

* `info` admits records of every target down to that level;
* `player=debug` does so for the targets that begin with `player`;
* a target alone admits everything from it.

The rule with the longest target decides; of two rules with one target the later one.  Rules that
cannot be read are passed over, and without any rule only errors are shown.
-/

namespace PlanPlayback.Console

/-- A rule of a filter: everything down to a depth from targets that begin with a text. -/
structure Rule where
  target : List Char
  depth : Nat
  deriving Repr, DecidableEq

/-- The depth that a name or a digit stands for; `off` and `0` admit nothing. -/
def depthOf? (text : List Char) : Option Nat :=
  let small := String.ofList (text.map Char.toLower)
  match Level.ofName? small with
  | some level => some level.depth
  | none =>
      if small = "off" then some 0
      else ["0", "1", "2", "3", "4", "5"].findIdx? fun digit => digit == small

/-- Whether a character may stand in a target. -/
def isTargetChar (c : Char) : Bool :=
  Text.isWordChar c || c == ':' || c == '-'

/-- Reads a rule.  A level in the place of the target stands for every target. -/
def Rule.ofText? (text : List Char) : Option Rule :=
  match depthOf? text with
  | some depth => some ⟨[], depth⟩
  | none =>
      let target := text.takeWhile isTargetChar
      let scope := if (depthOf? target).isSome then [] else target
      if target.isEmpty then none
      else
        match text.dropWhile isTargetChar with
        | [] => some ⟨scope, Level.trace.depth⟩
        | ['='] => some ⟨scope, Level.trace.depth⟩
        | '=' :: level => (depthOf? level).map fun depth => ⟨scope, depth⟩
        | _ => none

/-- A filter. -/
abbrev Filter := List Rule

namespace Filter

/-- The parts of a text between commas. -/
def parts : List Char → List (List Char)
  | [] => [[]]
  | ',' :: rest => [] :: parts rest
  | c :: rest =>
      match parts rest with
      | first :: others => (c :: first) :: others
      | [] => [[c]]

/-- Reads a filter. -/
def ofText (text : String) : Filter :=
  match (parts text.toList).filterMap Rule.ofText? with
  | [] => [⟨[], Level.error.depth⟩]
  | rules => rules

/-- Of two rules the one with the longer target, or the second one. -/
def stronger (first second : Rule) : Rule :=
  if second.target.length < first.target.length then first else second

/-- The rule that decides about a target. -/
def ruleFor? (filter : Filter) (target : String) : Option Rule :=
  match filter.filter fun rule => rule.target.isPrefixOf target.toList with
  | [] => none
  | first :: others => some (others.foldl stronger first)

/-- Whether a record is shown. -/
def admits (filter : Filter) (r : Record) : Bool :=
  match filter.ruleFor? r.target with
  | some rule => r.level.depth ≤ rule.depth
  | none => false

end Filter

end PlanPlayback.Console
