import PlanPlayback.Decimal.Numeral
import PlanPlayback.Plan.Statistics
import PlanPlayback.Text.Scan

/-!
# The search report of a transcript

Somewhere in its output a planner may say how long it searched and how large the search was.  Each
number has a label; the first place where label and number fit counts, and a number that cannot be
read leaves its field empty.  Labels are found without regard to case.

Times may carry a unit, in parentheses behind the label or behind the number; milliseconds are
turned into seconds.  A time ends at a word boundary: of the ways to cut a number and a unit from
the text, the longest that ends there is taken (`timeEndings`).

## Main definitions

* `labelled?` and its relatives find a labelled number;
* `timeAfter?` reads a time with its unit;
* `searchReport` collects all statistics of a transcript.
-/

namespace PlanPlayback.Transcript

open PlanPlayback.Text

/-- What a scanner, which does not look behind it, finds first in a text. -/
def firstFound? {α : Type} (scanner : List Char → Option α) (text : List Char) : Option α :=
  anywhere? (fun _ rest => scanner rest) none text

/-- What a scanner finds first at the beginning of a line. -/
def firstOnLine? {α : Type} (scanner : List Char → Option α) (text : List Char) : Option α :=
  anywhere? (atLineStart scanner) none text

/-- Blank space, an optional colon, blank space and digits: the digits. -/
def countAfter? (text : List Char) : Option (List Char) :=
  (digits? (skipBlanks (optionally [':'] (skipBlanks text)))).map Prod.fst

/-- Blank space and a given word behind it, if they are there. -/
def optionalWord (word : String) (text : List Char) : List Char :=
  ((someBlanks? text).bind (word? word)).getD text

/-! ## Counts -/

/-- A count behind a label. -/
def labelled? (label : String) (text : List Char) : Option (List Char) :=
  (word? label text).bind countAfter?

/-- A count behind a label and an optional second part of the label. -/
def labelledLong? (label tail : String) (text : List Char) : Option (List Char) :=
  (word? label text).bind fun rest => countAfter? (optionalWord tail rest)

/-- The length of the plan, whose label requires a colon. -/
def planLength? (text : List Char) : Option (List Char) := do
  let rest ← word? "plan" text
  let rest ← match rest with
    | c :: others => if c == '-' || c == ' ' then some others else none
    | [] => none
  let rest ← word? "length" rest
  let rest ← exactly? ':' (skipBlanks rest)
  let (digits, _) ← digits? (skipBlanks rest)
  return digits

/-- The number of expanded states, which stands inside its label. -/
def expandedStates? (text : List Char) : Option (List Char) := do
  let rest ← word? "expanded" text
  let rest ← someBlanks? rest
  let (digits, rest) ← digits? rest
  let rest ← someBlanks? rest
  let _ ← word? "state" rest
  return digits

/-- The size of a set, written `|f|: n`. -/
def setSize? (name : Char) (text : List Char) : Option (List Char) := do
  let rest ← exactly? '|' text
  let rest ← match rest with
    | c :: others => if c.toLower == name then some others else none
    | [] => none
  let rest ← exactly? '|' rest
  let rest ← exactly? ':' (skipBlanks rest)
  let (digits, _) ← digits? (skipBlanks rest)
  return digits

/-- The natural number that a scanner finds first. -/
def firstCount? (scanner : List Char → Option (List Char)) (text : List Char) : Option Nat :=
  (firstFound? scanner text).bind Decimal.natural?

/-! ## Costs -/

/-- Passes over a remark in parentheses with blank space in front, if there is one. -/
def optionalRemark (text : List Char) : List Char :=
  match exactly? '(' (skipBlanks text) with
  | some inside => ((exactly? ')' (inside.dropWhile (· != ')')))).getD text
  | none => text

/-- Passes over a label of the plan's cost. -/
def costLabel? (text : List Char) : Option (List Char) :=
  ((word? "metric" text).map fun rest => optionalRemark ((word? "value" rest).getD rest)).orElse
    fun _ => (word? "plan cost" text).orElse fun _ => word? "cost" text

/-- The cost of the plan on a line: blank space and semicolons, a label, an optional colon or equals
sign, and a number. -/
def planCost? (line : List Char) : Option (List Char) := do
  let rest ← costLabel? (line.dropWhile fun c => c == ';' || isBlank c)
  let (digits, _) ← signedNumeral? (skipBlanks (optionally [':', '='] (skipBlanks rest)))
  return digits

/-! ## Times -/

/-- The texts that a class of characters allows to take from the beginning of a text, at least
`least` characters, the longest first, each with what follows it. -/
def runsOf (accepts : Char → Bool) (least : Nat) (text : List Char) :
    List (List Char × List Char) :=
  let longest := (text.takeWhile accepts).length
  ((List.range (longest + 1 - least)).map fun k => longest - k).map fun n =>
    (text.take n, text.drop n)

/-- The numerals that a text begins with, the longest first. -/
def numeralRuns (text : List Char) : List (List Char × List Char) :=
  (runsOf isDigit 1 text).flatMap fun (whole, rest) =>
    (match rest with
      | '.' :: behind =>
          (runsOf isDigit 1 behind).map fun (fraction, others) =>
            (whole ++ '.' :: fraction, others)
      | _ => []) ++ [(whole, rest)]

/-- The unit that stands behind a number, as it is spelled, and what follows it: each unit that
fits, and then none. -/
def unitRuns (text : List Char) : List (Option (List Char) × List Char) :=
  (["msec", "ms", "seconds", "sec", "s"].filterMap fun unit =>
    (word? unit text).map fun rest => (some (text.take unit.length), rest)) ++ [(none, text)]

/-- Whether a word boundary lies between the last character of one text and the first character of
another. -/
def isBoundary (before after : List Char) : Bool :=
  before.getLast?.any isWordChar != startsWithWordChar after

/-- The ways to take a number and a unit from the beginning of a text, in the order of preference:
numerals from the longest to the shortest, blanks and tabs behind them likewise, then the units. -/
def timeEndings (text : List Char) : List (List Char × Option (List Char) × List Char) :=
  (numeralRuns text).flatMap fun (number, rest) =>
    (runsOf (fun c => c == ' ' || c == '\t') 0 rest).flatMap fun (gap, behind) =>
      (unitRuns behind).filterMap fun (unit, after) =>
        if isBoundary (number ++ gap ++ unit.getD []) after then some (number, unit, after)
        else none

/-- A unit in parentheses, as it is spelled, and what follows it. -/
def unitInParens? (text : List Char) : Option (List Char × List Char) :=
  (exactly? '(' text).bind fun inside =>
    ["msec", "ms", "sec", "s"].findSome? fun unit =>
      ((word? unit inside).bind (exactly? ')')).map fun rest =>
        (inside.take unit.length, rest)

/-- A time in seconds, given its number and the spelling of its unit. -/
def inSeconds (value : Float) (unit : Option (List Char)) : Float :=
  match unit.map fun spelled => String.ofList (spelled.map Char.toLower) with
  | some "msec" | some "ms" => value / 1000.0
  | _ => value

/-- A time behind its label: the number and the spelling of the unit.  A unit in front of the number
counts before one behind it. -/
def timeAfter? (label : String) (text : List Char) : Option (List Char × Option (List Char)) := do
  let rest ← word? label text
  let (front, rest) := match unitInParens? (skipBlanks rest) with
    | some (unit, others) => (some unit, others)
    | none => (none, rest)
  let (number, back, _) ← (timeEndings (skipBlanks (optionally [':'] (skipBlanks rest)))).head?
  return (number, front.or back)

/-- The time that stands first behind a label, in seconds. -/
def firstTime? (label : String) (text : List Char) : Option Float := do
  let (number, unit) ← firstFound? (timeAfter? label) text
  let value ← Decimal.float? number
  return inSeconds value unit

/-- A time on a comment line, behind the word `time` alone. -/
def commentTime? (line : List Char) : Option (List Char) := do
  let rest ← exactly? ';' line
  let rest ← word? "time" (skipBlanks rest)
  let rest ← someBlanks? rest
  let (number, _) ← Text.numeral? rest
  return number

/-! ## Search nodes -/

/-- A sample of the search, written `g(n)= .. h(n)= ..`: the two numbers. -/
def searchNode? (text : List Char) : Option (List Char × List Char) := do
  let rest ← word? "g(n)" text
  let rest ← exactly? '=' (skipBlanks rest)
  let (cost, rest) ← signedNumeral? (skipBlanks rest)
  let rest ← word? "h(n)" (skipBlanks (optionally [','] (skipBlanks rest)))
  let rest ← exactly? '=' (skipBlanks rest)
  let (estimate, _) ← signedNumeral? (skipBlanks rest)
  return (cost, estimate)

/-- All samples of the search whose numbers can be read. -/
def searchNodes (text : List Char) : List SearchNode :=
  (everywhere (fun _ rest => searchNode? rest) none text).filterMap fun (cost, estimate) =>
    match Decimal.float? cost, Decimal.float? estimate with
    | some g, some h => some ⟨g, h⟩
    | _, _ => none

/-! ## The report -/

/-- All statistics of a transcript. -/
def searchReport (transcript : String) : Statistics :=
  let text := transcript.toList
  let grounding : Grounding :=
    { facts := firstCount? (setSize? 'f') text
      actions := firstCount? (setSize? 'a') text
      time := firstTime? "grounding time" text }
  { planLength := firstCount? planLength? text
    planCost := (firstOnLine? planCost? text).bind Decimal.float?
    planningTime := (firstTime? "planning time" text).orElse fun _ =>
      (firstOnLine? commentTime? text).bind Decimal.float?
    searchTime := firstTime? "search time" text
    heuristicTime := firstTime? "heuristic time" text
    expandedNodes := (firstCount? (labelled? "expanded nodes") text).orElse fun _ =>
      firstCount? expandedStates? text
    statesEvaluated := firstCount? (labelledLong? "states evaluated" "so far") text
    deadEnds := firstCount? (labelledLong? "dead-ends" "detected") text
    duplicates := firstCount? (labelledLong? "duplicates" "detected") text
    grounding := if grounding.isEmpty then none else some grounding
    searchNodes := searchNodes text }

end PlanPlayback.Transcript
