import PlanPlayback.Sexpr.Reading
import PlanPlayback.Transcript.ActionLine

/-!
# Solution files

A solution file is a plan in a form that several planners share: comment lines with the cost and the
time of the search, then one action a line, as `t: (name args) [d]` or as `(name args)`.

* `Header` is what the comment lines say;
* `SolutionEntry` is a line taken apart: time, action, and what is behind the action;
* `dialectOfLines` tells the dialect from all lines together;
* `solution?` reads the whole file.

The action of a line is read as an s-expression, so that its arguments are the atoms in it.
-/

namespace PlanPlayback.Transcript

open PlanPlayback.Text

/-! ## The header -/

/-- Cost and time of a plan, as the comment lines state them. -/
structure Header where
  cost : Option Float := none
  time : Option Float := none
  deriving Repr

/-- The number that follows a label, behind colons, equals signs and blank space. -/
def statedNumber? (rest : List Char) : Option Float :=
  (words (rest.dropWhile fun c => c == ':' || c == '=' || isBlank c)).head?.bind Decimal.float?

/-- Takes one line into account.  The first number for a label counts. -/
def Header.addLine (header : Header) (line : List Char) : Header :=
  match trim line with
  | ';' :: comment =>
      let small := lowercase (trim comment)
      match afterPrefix? ['c', 'o', 's', 't'] small with
      | some rest => { header with cost := header.cost.orElse fun _ => statedNumber? rest }
      | none =>
          match afterPrefix? ['t', 'i', 'm', 'e'] small with
          | some rest => { header with time := header.time.orElse fun _ => statedNumber? rest }
          | none => header
  | _ => header

/-- The header of a file. -/
def Header.ofLines (all : List (List Char)) : Header :=
  all.foldl Header.addLine {}

/-! ## Lines -/

/-- A line with an action: the time in front of it, the action with its parentheses, and what
follows; and the bits of the time, if it is no number. -/
structure SolutionEntry where
  time : Option Float
  group : List Char
  rest : List Char
  timeBits : NaNBits
  deriving Repr

/-- A text without the colons it ends with. -/
def dropColons (text : List Char) : List Char :=
  (text.reverse.dropWhile (· == ':')).reverse

/-- Takes a line apart at the first opening parenthesis and the first closing one behind it.  A line
is refused if something other than a number stands in front. -/
def SolutionEntry.of? (line : List Char) : Option SolutionEntry :=
  let front := line.takeWhile (· != '(')
  match line.dropWhile (· != '(') with
  | [] => none
  | _ :: inside =>
      match inside.dropWhile (· != ')') with
      | [] => none
      | _ :: rest =>
          let group := '(' :: (inside.takeWhile (· != ')') ++ [')'])
          let label := trim (dropColons (trim front))
          if label.isEmpty then some ⟨none, group, rest, .quiet false⟩
          else
            (Decimal.float? label).map fun time =>
              ⟨some time, group, rest, .quiet (time.isNaN && label.head? == some '-')⟩

/-- The number in the first pair of brackets of a text. -/
def bracketNumber? (text : List Char) : Option Float :=
  match text.dropWhile (· != '[') with
  | [] => none
  | _ :: inside =>
      if inside.contains ']' then Decimal.float? (trim (inside.takeWhile (· != ']'))) else none

/-- Whether a word of numeric effects occurs in a text. -/
def namesUpdate (text : List Char) : Bool :=
  let small := lowercase text
  ["increase", "decrease", "assign"].any fun word => hasPart word.toList small

/-- The dialect of a file: temporal if some action has a duration, numeric if some action has a
numeric effect, and classical otherwise. -/
def dialectOfLines (found : List SolutionEntry) : Dialect :=
  if found.any fun line => (bracketNumber? line.rest).isSome then .temporal
  else if found.any fun line => namesUpdate line.rest then .numeric
  else .classical

/-! ## Actions -/

/-- Name and arguments of an action.  Only atoms count as arguments, and without a name there is no
action. -/
def SolutionEntry.call? (line : SolutionEntry) : Option (String × List String) :=
  match Sexpr.readForms (String.ofList (lowercase line.group)) with
  | .list (.atom name :: rest) :: _ => some (name, rest.filterMap Sexpr.atom?)
  | _ => none

/-- The action of a line, when `position` actions come before it. -/
def SolutionEntry.toAction? (dialect : Dialect) (settings : DurationSettings) (position : Nat)
    (line : SolutionEntry) : Option Action :=
  line.call?.map fun (name, args) =>
    let start := line.time.getD (Float.ofNat position * settings.classicalStep)
    let duration := match dialect with
      | .temporal => statedDuration settings ((bracketNumber? line.rest).getD settings.unstated)
      | _ => settings.classicalStep
    { Action.make name args start duration with
      rule := some "solution"
      effects := if dialect = .numeric then inlineEffects line.rest else []
      startBits := if line.time.isNone then stepBits settings position else line.timeBits }

/-- The actions of several lines, when `position` actions precede them. -/
def solutionActions (dialect : Dialect) (settings : DurationSettings) (position : Nat) :
    List SolutionEntry → List Action
  | [] => []
  | line :: rest =>
      match line.toAction? dialect settings position with
      | some action => action :: solutionActions dialect settings (position + 1) rest
      | none => solutionActions dialect settings position rest

/-- The lines of a file that hold actions. -/
def solutionLines (all : List (List Char)) : List SolutionEntry :=
  ((all.map trim).filter fun line => !line.isEmpty && line.head? != some ';').filterMap
    SolutionEntry.of?

/-- The plan of a solution file. -/
def solution? (settings : DurationSettings) (text : String) : Option Plan :=
  let all := lines text.toList
  let header := Header.ofLines all
  let found := solutionLines all
  let dialect := dialectOfLines found
  let actions := solutionActions dialect settings 0 found
  if actions.isEmpty then none
  else
    some (Plan.assemble dialect actions
      { planCost := header.cost, planningTime := header.time })

end PlanPlayback.Transcript
