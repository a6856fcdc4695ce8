import PlanPlayback.CommandLine.Arguments
import PlanPlayback.Console.Journal
import PlanPlayback.Console.Style
import PlanPlayback.Plan.Document
import PlanPlayback.Playback.Simulation
import PlanPlayback.Settings.Toml
import PlanPlayback.Text.Column

/-!
# Execution of commands

A command reads files and prints lines; on the way it leaves records for the log.  It succeeds, it
finds something to complain about, or it fails.

* `classify`, `validate`, `showPlan` and `simulate` are the commands;
* `Failure` is why a command fails, and `Failure.message` words it;
* `Invocation.execute` runs a command on given files.
-/

namespace PlanPlayback.CommandLine

open Console (Colour Record bold coloured dimmed)
open Decimal (fixed positional)

/-- Why a file cannot be read. -/
inductive FileFault where
  | missing
  | other (message : String)
  deriving Repr, DecidableEq

/-- The wording of a fault. -/
def FileFault.message : FileFault → String
  | .missing => "No such file or directory (os error 2)"
  | .other message => message

/-- The files that a command can read. -/
abbrev Files := String → Except FileFault String

/-- Why a command fails.  A step of `2 ^ 64` seconds cannot be made, and a step that does not move
the clock does not lead to an end. -/
inductive Failure where
  | unreadableFile (fault : FileFault)
  | unreadableInput (fault : FileFault)
  | unreadableText (fault : ReadingFault)
  | unreadableSettings
  | invalidSettings (fault : SettingsFault)
  | invalidStep (step : Float)
  | hugeStep
  | endless
  deriving Repr

/-- The wording of a failure. -/
def Failure.message : Failure → String
  | .unreadableFile fault => "io: " ++ fault.message
  | .unreadableInput fault => "IO error: " ++ fault.message
  | .unreadableText fault => fault.message
  | .unreadableSettings => "config: the settings cannot be read"
  | .invalidSettings fault => "config: Invalid configuration: " ++ fault.message
  | .invalidStep step => "--step must be a positive number of seconds, got " ++ positional step
  | .hugeStep => "--step is too long"
  | .endless => "--step does not move the clock"

/-- What a command puts out. -/
inductive Output where
  | line (text : String)
  | logged (record : Record)
  deriving Repr

/-- The end of a command that did not fail: whether everything is in order. -/
inductive Verdict where
  | fine
  | faulty
  deriving Repr, DecidableEq

/-- The exit code of a command that did not fail. -/
def Verdict.exitCode : Verdict → Nat
  | .fine => 0
  | .faulty => 1

/-- A computation that puts something out and can fail. -/
abbrev Execution := ExceptT Failure (StateM (List Output))

namespace Execution

/-- Puts out a line. -/
def print (text : String) : Execution Unit :=
  modify fun outputs => outputs ++ [.line text]

/-- Puts out several lines. -/
def printAll (texts : List String) : Execution Unit :=
  modify fun outputs => outputs ++ texts.map .line

/-- Puts out records. -/
def log (records : List Record) : Execution Unit :=
  modify fun outputs => outputs ++ records.map .logged

/-- Reads texts; what happens on the way is logged. -/
def reading {α : Type} (attempt : Attempt α) : Execution α := do
  let (result, milestones) := attempt.outcome
  log (journal milestones)
  match result with
  | .ok value => return value
  | .error fault => throw (.unreadableText fault)

/-- The content of a file; `failure` says how a fault is reported. -/
def content (files : Files) (name : String) (failure : FileFault → Failure) : Execution String :=
  match files name with
  | .ok text => return text
  | .error fault => throw (failure fault)

end Execution

open Execution

/-! ## The commands -/

/-- The settings of a file.  A file that does not exist stands for the default settings. -/
def settingsIn (files : Files) (name : String) : Execution Settings :=
  match files name with
  | .error .missing => return {}
  | .error (.other _) => throw .unreadableSettings
  | .ok text =>
      match Toml.settings text with
      | .ok settings => return settings
      | .error .unreadable => throw .unreadableSettings
      | .error (.invalid fault) => throw (.invalidSettings fault)

/-- The verdict on a domain as a document, with its members in alphabetical order. -/
def classificationDocument (domain : Parsed Domain) (c : Classification) : Json.Document :=
  .object [("confidence", .float c.confidence), ("domain", .string domain.value.name),
    ("domain_type", .string c.kind.tag),
    ("errors", .array (domain.issues.map fun issue => .string issue.message)),
    ("indicators", .array (c.indicators.map .string)),
    ("requirements", .array (c.requirements.map .string))]

/-- The verdict on a domain for the reader. -/
def classificationLines (domain : Parsed Domain) (c : Classification) : List String :=
  (bold domain.value.name ++ " " ++ coloured .cyan c.kind.tag ++ " (" ++
      fixed 0 (c.confidence * 100.0) ++ "% confidence)") ::
    (c.indicators.map fun indicator => "  " ++ dimmed "-" ++ " " ++ indicator) ++
    domain.issues.map fun issue => "  " ++ coloured .yellow "warning:" ++ " " ++ issue.message

/-- Classifies a domain. -/
def classify (files : Files) (domainFile : String) (json : Bool) : Execution Verdict := do
  let domain ← reading (readDomain (← content files domainFile .unreadableFile))
  let classification ← reading (classifyDomain domain.value)
  if json then print (classificationDocument domain classification).pretty
  else printAll (classificationLines domain classification)
  return .fine

/-- Checks a problem against its domain.  Everything that the texts are found to lack is an
issue. -/
def validate (files : Files) (domainFile problemFile : String) : Execution Verdict := do
  let domain ← reading (readDomain (← content files domainFile .unreadableFile))
  let problem ← reading (readProblem (← content files problemFile .unreadableFile))
  let findings ← reading (checkProblem domain.value problem.value)
  let issues := (domain.issues ++ problem.issues).map FormIssue.message ++
    findings.map Inconsistency.message
  if issues.isEmpty then
    print (bold (coloured .green "ok") ++ " " ++ problem.value.name ++ " matches " ++
      domain.value.name)
    return .fine
  else
    printAll (issues.map fun issue => bold (coloured .yellow "issue:") ++ " " ++ issue)
    return .faulty

/-- An action on a line: start, name and arguments, duration. -/
def actionLine (a : Action) : String :=
  Text.padStart 10 (fixed 3 a.start) ++ ": " ++ a.signature ++ "  [" ++ fixed 3 a.duration ++ "]"

/-- What the planner reported, as far as the reader is told of it. -/
def statisticsLines (s : Statistics) : List String :=
  if s.isEmpty then []
  else
    let time := s.searchTime.or s.planningTime
    bold "metrics" ::
      (s.planCost.map fun cost => "  cost: " ++ positional cost).toList ++
      (s.expandedNodes.map fun nodes => "  expanded nodes: " ++ toString nodes).toList ++
      (s.statesEvaluated.map fun states => "  states evaluated: " ++ toString states).toList ++
      (time.map fun seconds => "  search time: " ++ fixed 3 seconds ++ "s").toList

/-- A plan for the reader. -/
def summaryLines (p : Plan) : List String :=
  (coloured .cyan p.dialect.tag ++ " plan, " ++ toString p.actions.length ++
      " actions, duration " ++ fixed 3 p.totalDuration) ::
    p.actions.map actionLine ++ statisticsLines p.statistics ++
    ["quality: " ++ fixed 3 p.quality]

/-- Shows the plan of a transcript or of a solution file. -/
def showPlan (files : Files) (settings : Settings) (transcriptFile : String)
    (json solution : Bool) : Execution Verdict := do
  let text ← content files transcriptFile .unreadableFile
  let plan ← reading
    (if solution then readSolution settings.durations text
      else readTranscript settings.durations text)
  if json then print plan.document.pretty else printAll (summaryLines plan)
  return .fine

/-- A frame on a line: time, state, action and fluents. -/
def frameLine (f : Frame) : String :=
  let action := match f.current with
    | some action => action.signature
    | none => "-"
  "t=" ++ Text.padEnd 8 (fixed 3 f.time) ++ " " ++ Text.padEnd 8 f.state.tag ++ " " ++ action ++
    String.join (f.fluents.map fun (key, value) => "  " ++ key ++ "=" ++ positional value)

/-- Prints a moment. -/
def printMoment (frame : Frame) (notices : List Notice) : Execution Unit := do
  log (playJournal [] notices)
  print (frameLine frame)

/-- Plays a plan in steps, or shows a single moment of it. -/
def simulate (files : Files) (settings : Settings)
    (domainFile problemFile transcriptFile : String) (step : Float) (seek : Option Float) :
    Execution Verdict := do
  if !(step.isFinite && 0.0 < step) then throw (.invalidStep step)
  let domainText ← content files domainFile .unreadableInput
  let problemText ← content files problemFile .unreadableInput
  let transcript ← content files transcriptFile .unreadableInput
  let session ← reading (Session.ofTexts domainText problemText transcript settings)
  printAll (session.diagnostics.messages.map fun message =>
    coloured .yellow "warning:" ++ " " ++ message)
  match seek with
  | some time =>
      let (player, notices) := session.player.seek time
      printMoment player.frame notices
      return .fine
  | none =>
      match nanosecondsOf? step with
      | none => throw .hugeStep
      | some interval =>
          let (player, _, notices) := session.player.play
          printMoment player.frame notices
          match player.playOut? interval [] with
          | none => throw .endless
          | some moments =>
              moments.forM fun moment => printMoment moment.frame moment.notices
              return .fine

namespace Invocation

/-- The files that a command reads. -/
def inputs (i : Invocation) : List String :=
  i.settingsFile ::
    match i.command with
    | .classify domain _ => [domain]
    | .validate domain problem => [domain, problem]
    | .showPlan transcript _ _ => [transcript]
    | .simulate domain problem transcript _ _ => [domain, problem, transcript]

/-- Runs a command on files. -/
def execute (i : Invocation) (files : Files) : Execution Verdict := do
  let settings ← settingsIn files i.settingsFile
  match i.command with
  | .classify domain json => classify files domain json
  | .validate domain problem => validate files domain problem
  | .showPlan transcript json solution => showPlan files settings transcript json solution
  | .simulate domain problem transcript step seek =>
      simulate files settings domain problem transcript step seek

/-- What a command puts out, and how it ends. -/
def outcome (i : Invocation) (files : Files) : Except Failure Verdict × List Output :=
  (i.execute files).run.run []

end Invocation

end PlanPlayback.CommandLine
