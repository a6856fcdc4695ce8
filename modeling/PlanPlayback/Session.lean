import PlanPlayback.Pddl.Classification
import PlanPlayback.Pddl.Consistency
import PlanPlayback.Pddl.Sections
import PlanPlayback.Playback.Player
import PlanPlayback.Transcript.PlanReading
import PlanPlayback.Transcript.SolutionFile

/-!
# Sessions

A session is everything that belongs to one plan: its domain, its problem, the verdict on the
domain, what is wrong with the texts, and a player in which the plan is loaded.  It is made from
three texts.  What cannot be understood in them is reported; only a domain or a problem without a
definition, and a transcript without actions, stop the reading.

## Main definitions

* `Milestone` is something that was achieved on the way, the material of the log;
* `Attempt` is a computation that leaves milestones behind, also when it fails;
* `readDomain`, `readProblem`, `readTranscript` and `readSolution` are its parts;
* `Session.ofTexts` makes a session.
-/

namespace PlanPlayback

/-- Something that was achieved, or happened, while texts were read. -/
inductive Milestone where
  | domainRead (domain : Parsed Domain)
  | problemRead (problem : Parsed Problem)
  | domainClassified (name : String) (classification : Classification)
  | inconsistencyFound (finding : Inconsistency)
  | dialectDetected (detection : Transcript.Detection)
  | planRead (plan : Plan)
  | solutionRead (plan : Plan)
  | noActionsFound (dialect : Dialect)
  | played (notice : Notice)

/-- Why texts cannot be read at all. -/
inductive ReadingFault where
  | noDefinition
  | noActions
  deriving Repr, DecidableEq

/-- The wording of a fault. -/
def ReadingFault.message : ReadingFault → String
  | .noDefinition => "Parse error: no (define ...) form found"
  | .noActions => "No valid actions found in planner output"

/-- A computation that leaves milestones behind and can fail. -/
abbrev Attempt := ExceptT ReadingFault (StateM (List Milestone))

namespace Attempt

/-- Leaves a milestone behind. -/
def mark (milestone : Milestone) : Attempt Unit :=
  modify fun milestones => milestones ++ [milestone]

/-- The result of a computation and the milestones on the way. -/
def outcome {α : Type} (attempt : Attempt α) : Except ReadingFault α × List Milestone :=
  attempt.run.run []

end Attempt

/-- Reads a domain. -/
def readDomain (text : String) : Attempt (Parsed Domain) := do
  match Domain.parse? text with
  | none => throw .noDefinition
  | some domain =>
      Attempt.mark (.domainRead domain)
      return domain

/-- Reads a problem. -/
def readProblem (text : String) : Attempt (Parsed Problem) := do
  match Problem.parse? text with
  | none => throw .noDefinition
  | some problem =>
      Attempt.mark (.problemRead problem)
      return problem

/-- Classifies a domain. -/
def classifyDomain (domain : Domain) : Attempt Classification := do
  let classification := domain.classify
  Attempt.mark (.domainClassified domain.name classification)
  return classification

/-- Checks a problem against its domain. -/
def checkProblem (domain : Domain) (problem : Problem) : Attempt (List Inconsistency) := do
  let findings := domain.inconsistencies problem
  findings.forM fun finding => Attempt.mark (.inconsistencyFound finding)
  return findings

/-- Reads a transcript whose dialect is known. -/
def readTranscriptIn (dialect : Dialect) (settings : DurationSettings) (text : String) :
    Attempt Plan := do
  match Transcript.planIn? dialect settings text with
  | none =>
      Attempt.mark (.noActionsFound dialect)
      throw .noActions
  | some plan =>
      Attempt.mark (.planRead plan)
      return plan

/-- Reads a transcript after finding out its dialect. -/
def readTranscript (settings : DurationSettings) (text : String) : Attempt Plan := do
  let detection := Transcript.detect text
  Attempt.mark (.dialectDetected detection)
  readTranscriptIn detection.dialect settings text

/-- Reads a solution file. -/
def readSolution (settings : DurationSettings) (text : String) : Attempt Plan := do
  match Transcript.solution? settings text with
  | none => throw .noActions
  | some plan =>
      Attempt.mark (.solutionRead plan)
      return plan

/-- What is wrong with the texts of a session. -/
structure Diagnostics where
  domain : List FormIssue := []
  problem : List FormIssue := []
  validation : List Inconsistency := []
  deriving Repr

namespace Diagnostics

/-- All findings, each with where it comes from. -/
def messages (d : Diagnostics) : List String :=
  d.domain.map (fun issue => "domain: " ++ issue.message) ++
    d.problem.map (fun issue => "problem: " ++ issue.message) ++
    d.validation.map fun finding => "validation: " ++ finding.message

/-- The number of findings. -/
def count (d : Diagnostics) : Nat :=
  d.domain.length + d.problem.length + d.validation.length

end Diagnostics

/-- A plan in its player, with the domain and the problem that it solves. -/
structure Session where
  domain : Domain
  problem : Problem
  classification : Classification
  diagnostics : Diagnostics
  player : Player
  deriving Repr

namespace Session

/-- A temporal plan for a metric temporal domain is metric temporal. -/
def raiseDialect (plan : Plan) (kind : DomainKind) : Plan :=
  if plan.dialect = .temporal ∧ kind = .of .metricTemporal then
    { plan with dialect := .metricTemporal }
  else plan

/-- Makes a session from the texts of a domain, of a problem and of a transcript. -/
def ofTexts (domainText problemText transcript : String) (settings : Settings) :
    Attempt Session := do
  let domain ← readDomain domainText
  let problem ← readProblem problemText
  let classification ← classifyDomain domain.value
  let validation ← checkProblem domain.value problem.value
  let plan ← readTranscript settings.durations transcript
  let context : Context :=
    { domain := some domain.value, problem := some problem.value, kind := classification.kind }
  let (player, notices) :=
    (Player.ofSettings settings).load (raiseDialect plan classification.kind) context
  notices.forM fun notice => Attempt.mark (.played notice)
  return {
    domain := domain.value
    problem := problem.value
    classification
    diagnostics := ⟨domain.issues, problem.issues, validation⟩
    player }

end Session

end PlanPlayback
