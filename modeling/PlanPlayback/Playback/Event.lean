import PlanPlayback.Numeric.Key
import PlanPlayback.Plan.Basic
import PlanPlayback.Playback.Store

/-!
# Events

An action of a plan is shown as one event or two: the event of its verb, and an event that carries
its numeric effects, if there are any.  An event runs from its start to its end; it remembers how
far it has got.

* `EventKind.ofName` tells the verb from the name of an action;
* `eventsOf` are the events of an action;
* `Event.progressAt` and `Event.covers` say where an event stands at a point in time.
-/

namespace PlanPlayback

/-- What an event shows. -/
inductive EventKind where
  | move
  | pick
  | drop
  | load
  | unload
  | numeric
  | custom
  deriving Repr, DecidableEq

namespace EventKind

/-- The name of a kind in machine-readable output. -/
def tag : EventKind → String
  | move => "move"
  | pick => "pick"
  | drop => "drop"
  | load => "load"
  | unload => "unload"
  | numeric => "numeric"
  | custom => "custom"

/-- The words of a name, which hyphens and underscores separate. -/
def nameWords (name : String) : List (List Char) :=
  splitAt '-' (name.toList.map fun c => if c = '_' then '-' else c)

/-- Whether a word begins with one of several verbs. -/
def showsVerb (words : List (List Char)) (verbs : List String) : Bool :=
  words.any fun word => verbs.any fun verb => verb.toList.isPrefixOf word

/-- The kind of event that the name of an action suggests: the first kind with a verb that a word of
the name begins with. -/
def ofName (name : String) : EventKind :=
  let words := nameWords name
  if showsVerb words ["unload"] then .unload
  else if showsVerb words ["load"] then .load
  else if showsVerb words ["pick", "grab", "take", "lift"] then .pick
  else if showsVerb words ["drop", "put", "place", "release"] then .drop
  else if showsVerb words ["move", "drive", "navigate", "fly", "walk", "travel", "goto"] then .move
  else if showsVerb words ["recharge", "charge", "refuel"] then .numeric
  else .custom

end EventKind

/-- What an event carries for those who show it. -/
inductive EventDetail where
  | move (origin destination : Option String)
  | transfer (item place : Option String)
  | numeric (effects : List Effect)
  | custom (action : String) (args : List String)
  deriving Repr

/-- How far an event has got. -/
inductive EventStatus where
  | pending
  | started
  | completed
  deriving Repr, DecidableEq

/-- The name of a status in machine-readable output. -/
def EventStatus.tag : EventStatus → String
  | .pending => "pending"
  | .started => "started"
  | .completed => "completed"

/-- Something that is shown while an action runs. -/
structure Event where
  id : String
  kind : EventKind
  object : String
  action : String
  start : Float
  duration : Float
  data : EventDetail
  status : EventStatus := .pending
  progress : Float := 0.0
  deriving Repr

namespace Event

/-- An event of an action that has not begun.  It is about the first argument of the action, or
about the action itself if there is none. -/
def ofAction (action : Action) (kind : EventKind) (data : EventDetail) : Event :=
  { id := action.id ++ ":" ++ kind.tag
    kind
    object := action.args.head?.getD action.name
    action := action.id
    start := action.start
    duration := action.duration
    data }

/-- When an event ends. -/
def finish (e : Event) : Float :=
  e.start + e.duration

/-- Whether an event is over. -/
def isCompleted (e : Event) : Bool :=
  e.status == .completed

/-- A number moved into the range from zero to one; what is no number stays as it is. -/
def unitClamp (x : Float) : Float :=
  let raised := if x < 0.0 then 0.0 else x
  if 1.0 < raised then 1.0 else raised

/-- The part of an event that has passed at a point in time. -/
def progressAt (e : Event) (time : Float) : Float :=
  if e.finish <= time then 1.0
  else if e.duration <= 0.0 || time <= e.start then 0.0
  else unitClamp ((time - e.start) / e.duration)

/-- Whether an event is running at a point in time; one without duration is running at its start. -/
def covers (e : Event) (time : Float) : Bool :=
  e.start <= time && (time < e.finish || (e.duration <= 0.0 && time == e.start))

/-- The numeric effects that an event carries. -/
def effects (e : Event) : List Effect :=
  match e.data with
  | .numeric effects => effects
  | _ => []

/-- An event as it was before it began. -/
def rewind (e : Event) : Event :=
  { e with status := .pending, progress := 0.0 }

end Event

/-- What the verb event of an action carries. -/
def EventDetail.ofAction (action : Action) (kind : EventKind) (effects : List Effect) :
    EventDetail :=
  match kind with
  | .move =>
      let n := action.args.length
      .move (if 3 ≤ n then action.args[n - 2]? else none)
        (if 2 ≤ n then action.args[n - 1]? else none)
  | .pick | .drop | .load | .unload => .transfer action.args[1]? action.args[2]?
  | .numeric => .numeric effects
  | .custom => .custom action.name action.args

/-- The events of an action: the event of its verb, and an event for its numeric effects unless the
first one carries them. -/
def eventsOf (action : Action) (effects : List Effect) : List Event :=
  let kind := EventKind.ofName action.name
  let main := Event.ofAction action kind (EventDetail.ofAction action kind effects)
  if kind ≠ .numeric && !effects.isEmpty then
    [main, Event.ofAction action .numeric (.numeric effects)]
  else [main]

end PlanPlayback
