import PlanPlayback.Playback.Clock
import PlanPlayback.Playback.Event
import PlanPlayback.Playback.Resolution

/-!
# The schedule

The schedule holds the events of a plan.  Whenever the clock has moved, the events are brought in
line with it: events whose start has come are started, running events progress, and events that are
over are completed.  The effects of an event are applied exactly once, when it is completed, on the
values that the fluents have at that moment; a completed event stays completed until the schedule is
rewound.

## Main definitions

* `Notice` is something that happened: the material of listeners and of the log;
* `Event.step` brings a single event in line with a time, and `Event.revisit` does so after a jump;
* `Schedule.update` and `Schedule.seek` do this for all events, in the order of the actions.
-/

namespace PlanPlayback

/-- Something that happens while a plan is played. -/
inductive Notice where
  | turned (transition : Transition)
  | sought (requested time : Float) (state : PlayState)
  | started (event : Event) (time : Float)
  | progressed (event : Event) (progress : Float)
  | clamped (clamping : Clamping)
  | completed (event : Event) (applied : Nat)
  | jumped (time : Float) (started completed : Nat)
  | rewound
  | loaded (dialect : Dialect) (actions events fluents : Nat) (total : Float)
  deriving Repr

/-- Events and fluents after a step, with what happened on the way. -/
structure Pass where
  events : List Event
  store : Store
  started : Nat := 0
  completed : Nat := 0
  notices : List Notice := []
  deriving Repr

/-- A single event and the fluents after a step, with what happened on the way. -/
structure Step where
  event : Event
  store : Store
  started : Nat := 0
  completed : Nat := 0
  notices : List Notice := []
  deriving Repr

namespace Event

/-- Starts an event whose start has come. -/
def begin (e : Event) (time : Float) (store : Store) : Step :=
  if e.status = .pending && !(time < e.start) then
    let e := { e with status := .started, progress := 0.0 }
    { event := e, store, started := 1, notices := [.started e time] }
  else { event := e, store }

/-- Completes an event: its effects are applied to the fluents. -/
def complete (e : Event) (store : Store) : Step :=
  let applied := store.applyTogether e.effects
  let e := { e with status := .completed, progress := 1.0 }
  { event := e, store := applied.store, completed := 1
    notices := applied.clampings.map .clamped ++ [.completed e applied.count] }

/-- Lets a started event progress, or completes it. -/
def proceed (e : Event) (time : Float) (store : Store) : Step :=
  if e.status = .started then
    let progress := e.progressAt time
    if 1.0 <= progress then e.complete store
    else
      let e := { e with progress }
      { event := e, store, notices := [.progressed e progress] }
  else { event := e, store }

/-- Brings an event in line with a time. -/
def step (e : Event) (time : Float) (store : Store) : Step :=
  let first := e.begin time store
  let second := first.event.proceed time first.store
  { event := second.event, store := second.store, started := first.started
    completed := second.completed, notices := first.notices ++ second.notices }

/-- Brings an event in line with a time after a jump.  A completed event stays completed; if it
covers the time, its progress is shown once more. -/
def revisit (e : Event) (time : Float) (store : Store) : Step :=
  if e.isCompleted then
    { event := e, store
      notices := if e.covers time then [.progressed e (e.progressAt time)] else [] }
  else e.step time store

/-- A started event as if it had not begun; any other event as it is. -/
def forget (e : Event) : Event :=
  if e.status = .started then e.rewind else e

end Event

namespace Pass

/-- Visits events in turn; each finds the fluents as the ones before have left them. -/
def run (visit : Event → Store → Step) : List Event → Store → Pass
  | [], store => { events := [], store }
  | e :: rest, store =>
      let first := visit e store
      let others := run visit rest first.store
      { events := first.event :: others.events
        store := others.store
        started := first.started + others.started
        completed := first.completed + others.completed
        notices := first.notices ++ others.notices }

end Pass

/-- The events of a plan, in the order of its actions. -/
structure Schedule where
  events : List Event := []
  deriving Repr, Inhabited

namespace Schedule

/-- The events of actions, where the effects are those of the actions from a position on. -/
def eventsFrom (resolution : Resolution) (position : Nat) : List Action → List Event
  | [] => []
  | action :: rest =>
      eventsOf action (resolution.effectsAt position) ++ eventsFrom resolution (position + 1) rest

/-- The schedule of a plan. -/
def ofPlan (plan : Plan) (resolution : Resolution) : Schedule :=
  ⟨eventsFrom resolution 0 plan.actions⟩

/-- The event with an identifier. -/
def event? (s : Schedule) (id : String) : Option Event :=
  s.events.find? fun e => e.id == id

/-- How many events are completed. -/
def numberCompleted (s : Schedule) : Nat :=
  s.events.countP Event.isCompleted

/-- The events that are running. -/
def active (s : Schedule) : List Event :=
  s.events.filter fun e => e.status == .started

/-- Brings all events in line with a time. -/
def update (s : Schedule) (time : Float) (store : Store) : Pass :=
  Pass.run (fun e store => e.step time store) s.events store

/-- Brings all events in line with a time after a jump. -/
def seek (s : Schedule) (time : Float) (store : Store) : Pass :=
  let pass := Pass.run (fun e store => e.revisit time store) (s.events.map Event.forget) store
  { pass with notices := pass.notices ++ [.jumped time pass.started pass.completed] }

/-- All events as they were before they began. -/
def rewind (s : Schedule) : Schedule :=
  ⟨s.events.map Event.rewind⟩

/-- A one-line description: the numbers of events, of completed events and of listeners. -/
def describe (s : Schedule) (listeners : Nat) : String :=
  "EventScheduler \x7b events: " ++ toString s.events.length ++ ", completed: " ++
    toString s.numberCompleted ++ ", listeners: " ++ toString listeners ++ " \x7d"

end Schedule

end PlanPlayback
