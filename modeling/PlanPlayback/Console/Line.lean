import PlanPlayback.Console.Filter
import PlanPlayback.Console.Quantity
import PlanPlayback.Console.Style
import PlanPlayback.Text.Blank
import PlanPlayback.Text.Column

/-!
# Lines of the console

A record becomes at most one line, unless its texts have line breaks.  The lines of the log begin
with the time since the program was started, in a cell that the caller supplies; the lines of single
events are indented instead.  Records without an event that the console knows have no line.

* `elapsedCell` is the cell for a time;
* `Record.line?` is the line of a record;
* `shownLines` are the lines of those records that a filter admits.
-/

namespace PlanPlayback.Console

/-- The cell in front of a line: seconds with three places. -/
def elapsedCell (seconds : Float) : String :=
  coloured .grey (Text.padStart 7 (Decimal.fixed 3 seconds) ++ "s")

/-- A count in the colour of counts. -/
def countText (n : Nat) : String :=
  coloured .brightYellow (grouped n)

/-- The number of findings. -/
def issuesText (n : Nat) : String :=
  if n = 0 then coloured .brightGreen "clean" else coloured .brightRed (grouped n ++ " issues")

/-- A name in bold white. -/
def nameText (name : String) : String :=
  bold (coloured .white name)

/-- The mark in front of what was read. -/
def readMark : String :=
  bold (coloured .brightGreen "▶")

/-- The mark in front of a warning. -/
def warningMark : String :=
  bold (coloured .brightYellow "⚠")

namespace Record

/-- The name of a domain or a problem. -/
def subject (r : Record) : String :=
  nameText ((r.text? ["domain", "problem"]).getD "?")

/-- A domain was read. -/
def domainRead (r : Record) : String :=
  let continuous :=
    if 0 < r.countOf "processes" + r.countOf "events" then
      " │ " ++ countText (r.countOf "processes") ++ " processes │ " ++
        countText (r.countOf "events") ++ " events"
    else ""
  readMark ++ " Domain " ++ r.subject ++ " │ " ++ countText (r.countOf "actions") ++ " actions" ++
    continuous ++ " │ " ++ issuesText (r.countOf "errors")

/-- A problem was read. -/
def problemRead (r : Record) : String :=
  readMark ++ " Problem " ++ r.subject ++ " │ " ++ countText (r.countOf "objects") ++
    " objects │ " ++ issuesText (r.countOf "errors")

/-- A domain was classified. -/
def domainClassified (r : Record) : String :=
  let kind := (r.text? ["domain_type"]).getD "UNKNOWN"
  let confidence := Decimal.fixed 0 (r.numberOf "confidence" * 100.0) ++ "%"
  coloured .brightCyan "◆" ++ " Classified as " ++ bold (coloured .brightMagenta kind) ++
    " │ confidence " ++
    coloured (if kind = "UNKNOWN" then .brightRed else .brightGreen) confidence

/-- The dialect of a transcript was found. -/
def plannerDetected (r : Record) : String :=
  coloured .brightCyan "◆" ++ " Planner output " ++
    bold (coloured .brightMagenta (r.textOf "dialect")) ++ " │ rule " ++
    coloured .white (r.textOf "rule")

/-- A plan was read, or, in a warning, none was found. -/
def planBuilt (r : Record) : String :=
  if r.level = .warn then
    bold (coloured .brightRed "✗") ++ " No valid actions in " ++ r.textOf "dialect" ++ " output"
  else
    let cost := (r.number? "cost").map fun cost =>
      " │ cost " ++ coloured .brightMagenta (figure cost)
    let source := (r.text? ["source"]).map fun source => " │ " ++ coloured .grey source
    bold (coloured .brightCyan "■") ++ " Plan │ " ++ countText (r.countOf "actions") ++
      " actions │ makespan " ++ coloured .yellow (timeText (r.numberOf "total_duration")) ++
      cost.getD "" ++ source.getD ""

/-- A plan was loaded. -/
def planLoaded (r : Record) : String :=
  coloured .brightBlue "▶" ++ " Loaded " ++ nameText (r.textOf "dialect") ++ " plan │ " ++
    countText (r.countOf "events") ++ " events │ " ++ countText (r.countOf "fluents") ++ " fluents"

/-- The mark of a state of the clock. -/
def stateMark (state : String) : String :=
  if state = "playing" then coloured .brightGreen "▶"
  else if state = "paused" then coloured .brightYellow "❚❚"
  else coloured .brightRed "■"

/-- The clock changed its state, or something else was done to it. -/
def playback? (r : Record) : Option String :=
  match r.text? ["to"], r.text? ["action"] with
  | some next, _ =>
      some (stateMark next ++ " " ++ coloured .grey (r.textOf "from") ++ " → " ++
        nameText next ++ " at " ++ coloured .yellow (timeText (r.numberOf "time")))
  | none, some action => some (coloured .brightBlue "↺" ++ " " ++ nameText action)
  | none, none => none

/-- The clock was moved. -/
def sought (r : Record) : String :=
  let effect := (r.count? "completed").map fun completed =>
    " │ " ++ coloured .white (grouped (r.countOf "started")) ++ " started │ " ++
      coloured .brightGreen (grouped completed) ++ " completed"
  coloured .brightBlue "⇥" ++ " Seek to " ++ coloured .yellow (timeText (r.numberOf "time")) ++
    effect.getD ""

/-- An event was started or completed. -/
def eventLine (r : Record) (mark : String) : String :=
  let object := (r.text? ["object"]).map fun object => " │ " ++ coloured .brightCyan object
  let effects :=
    if 0 < r.countOf "effects" then
      " │ " ++ coloured .brightMagenta (grouped (r.countOf "effects")) ++ " effects"
    else ""
  "    " ++ mark ++ " " ++ coloured .white (Text.padEnd 8 (r.textOf "kind")) ++ " " ++
    coloured .grey (r.textOf "id") ++ object.getD "" ++ effects

/-- A listener did not know the object of an event. -/
def eventSkipped (r : Record) : String :=
  warningMark ++ " Skipped " ++ coloured .white (r.textOf "id") ++ " │ unknown object " ++
    coloured .brightRed (r.textOf "object")

/-- A value was moved into the range of its fluent. -/
def fluentClamped (r : Record) : String :=
  "    " ++ coloured .brightYellow "⚡" ++ " " ++ coloured .white (r.textOf "fluent") ++
    " clamped " ++ coloured .grey (figure (r.numberOf "requested")) ++ " → " ++
    coloured .brightYellow (figure (r.numberOf "value"))

/-- A problem does not fit its domain. -/
def validationIssue (r : Record) : String :=
  warningMark ++ " " ++ coloured .yellow (r.textOf "issue")

/-- The line of a record, where `elapsed` is the cell in front of it. -/
def line? (r : Record) (elapsed : String) : Option String :=
  let timed (body : String) : Option String := some (elapsed ++ " " ++ body)
  match (r.text? ["event"]).getD "" with
  | "domain_parsed" => timed r.domainRead
  | "problem_parsed" => timed r.problemRead
  | "domain_classified" => timed r.domainClassified
  | "planner_detected" => timed r.plannerDetected
  | "plan_built" => timed r.planBuilt
  | "plan_loaded" => timed r.planLoaded
  | "playback" => r.playback?.bind timed
  | "seek" => timed r.sought
  | "event_started" => some (r.eventLine (coloured .brightBlue "→"))
  | "event_completed" => some (r.eventLine (coloured .brightGreen "✓"))
  | "event_skipped" => timed r.eventSkipped
  | "fluent_clamped" => some r.fluentClamped
  | "validation_issue" => timed r.validationIssue
  | _ => none

/-- Whether a record is one of this program. -/
def isOwn (r : Record) : Bool :=
  ownTarget.toList.isPrefixOf r.target.toList

end Record

/-- The lines of the records that a filter admits.  Other programs have no lines here.  A record
takes more than one line only if one of its texts has a line break in it. -/
def shownLines (filter : Filter) (elapsed : String) (records : List Record) : List String :=
  (records.filter fun r => filter.admits r && r.isOwn).flatMap fun r =>
    match r.line? elapsed with
    | some text => Text.linesOf (text ++ "\n")
    | none => []

end PlanPlayback.Console
