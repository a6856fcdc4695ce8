import PlanPlayback.Dialect
import PlanPlayback.Numeric.Fluent
import PlanPlayback.Numeric.TotalOrder
import PlanPlayback.Numeric.Update
import PlanPlayback.Plan.Statistics

/-!
# Plans

A plan is a list of actions on a common time axis.  Whatever a planner prints is brought into this
form, and everything that is played is read from it.

* `Action` is a scheduled action; it is running from its start up to, but not including, its end;
* `Plan.assemble` sorts actions by their start, numbers them and computes the totals;
* `Plan.actionAt?`, `nextAfter?` and `activeAt` say what happens at a point in time.
-/

namespace PlanPlayback

/-- A change of a fluent that a planner printed next to an action. -/
structure PlannedEffect where
  fluent : String
  update : Update
  amount : Float
  deriving Repr

/-- A scheduled action, with the rule that recognised its line, if it was read from a text, and the
bits of its start for the case that it is no number. -/
structure Action where
  id : String := ""
  name : String
  args : List String
  start : Float
  duration : Float
  finish : Float
  effects : List PlannedEffect := []
  rule : Option String := none
  startBits : NaNBits := .quiet false
  deriving Repr

/-- Where an action stands at a point in time. -/
inductive ActionStatus where
  | pending
  | active
  | completed
  deriving Repr, DecidableEq

/-- The name of a status in machine-readable output. -/
def ActionStatus.tag : ActionStatus → String
  | .pending => "pending"
  | .active => "active"
  | .completed => "completed"

namespace Action

/-- An action with a start and a duration; a negative duration counts as zero. -/
def make (name : String) (args : List String) (start duration : Float) : Action :=
  let duration := larger duration 0.0
  { name, args, start, duration, finish := start + duration }

/-- An action moved to another start. -/
def startingAt (a : Action) (start : Float) (startBits : NaNBits := .quiet false) : Action :=
  { a with start, startBits, finish := start + a.duration }

/-- Whether an action is running at a point in time. -/
def contains (a : Action) (time : Float) : Bool :=
  a.start <= time && time < a.finish

/-- Where an action stands at a point in time. -/
def statusAt (a : Action) (time : Float) : ActionStatus :=
  if time < a.start then .pending else if time < a.finish then .active else .completed

/-- The place of the start of an action in the total order. -/
def place (a : Action) : Int :=
  if a.start.isNaN then totalKey a.startBits.code else orderKey a.start

/-- Name and arguments in parentheses. -/
def signature (a : Action) : String :=
  if a.args.isEmpty then "(" ++ a.name ++ ")"
  else "(" ++ a.name ++ " " ++ " ".intercalate a.args ++ ")"

end Action


/-- A plan: actions sorted by their start, the time at which the last of them ends, which is the
makespan as well, the cost, and what the planner reported. -/
structure Plan where
  dialect : Dialect
  actions : List Action
  totalDuration : Float
  makespan : Float := totalDuration
  cost : Float
  statistics : Statistics
  deriving Repr

namespace Plan

/-- The identifier of the action at a position. -/
def actionId (position : Nat) : String :=
  "action-" ++ toString position

/-- Actions with identifiers, from a position on. -/
def numbered (position : Nat) : List Action → List Action
  | [] => []
  | a :: rest => { a with id := actionId position } :: numbered (position + 1) rest

/-- Actions in the order of their start; actions that start together keep their order. -/
def sorted (actions : List Action) : List Action :=
  actions.mergeSort fun a b => decide (a.place ≤ b.place)

/-- The plan of a list of actions.  It lasts until the last action ends, and its cost is the one
that was reported or else the number of actions. -/
def assemble (dialect : Dialect) (actions : List Action) (statistics : Statistics) : Plan :=
  let actions := numbered 0 (sorted actions)
  let totalDuration := (actions.map Action.finish).foldl larger 0.0
  { dialect, actions, totalDuration, statistics
    makespan := totalDuration
    cost := statistics.planCost.getD (Float.ofNat actions.length) }

/-- The first action that is running at a point in time. -/
def actionAt? (p : Plan) (time : Float) : Option Action :=
  p.actions.find? fun a => a.contains time

/-- The first action that starts after a point in time. -/
def nextAfter? (p : Plan) (time : Float) : Option Action :=
  p.actions.find? fun a => time < a.start

/-- The actions that are running at a point in time. -/
def activeAt (p : Plan) (time : Float) : List Action :=
  p.actions.filter fun a => a.contains time

/-- The action with an identifier. -/
def action? (p : Plan) (id : String) : Option Action :=
  p.actions.find? fun a => a.id == id

/-- The quality of a plan, at most one: the mean of a score for its length and a score for the time
that the search or, failing that, the planning took. -/
def quality (p : Plan) : Float :=
  let lengthScore := 1.0 / (1.0 + Float.ofNat p.actions.length)
  let time := p.statistics.searchTime.or p.statistics.planningTime
  let timeScore := match time with
    | some t => 1.0 / (1.0 + larger t 0.0)
    | none => 1.0
  (lengthScore + timeScore) / 2.0

end Plan

end PlanPlayback
