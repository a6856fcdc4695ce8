import PlanPlayback.Playback.Schedule

/-!
# Listeners

A scene that shows a plan is told when events start, progress and are completed.  It is only told of
the objects that it knows.

* `Call` is what a listener is told, and `Notice.call?` says which notices are calls;
* `Listener.heard` are the calls that reach a listener;
* `Tally` counts calls by their phase;
* `Audience` is a group of listeners that remember what they were told; one that has left is told
  nothing more.
-/

namespace PlanPlayback

/-- What is reported of an event. -/
inductive Phase where
  | started
  | progress
  | completed
  deriving Repr, DecidableEq

/-- The name of a phase in machine-readable output. -/
def Phase.tag : Phase → String
  | .started => "started"
  | .progress => "progress"
  | .completed => "completed"

/-- A report of an event; the progress is given while the event runs. -/
structure Call where
  phase : Phase
  event : Event
  progress : Option Float := none
  deriving Repr

/-- The call that a notice is for listeners, if it is one. -/
def Notice.call? : Notice → Option Call
  | .started e _ => some ⟨.started, e, none⟩
  | .progressed e progress => some ⟨.progress, e, some progress⟩
  | .completed e _ => some ⟨.completed, e, none⟩
  | _ => none

/-- What a listener does with its calls: it keeps them all, counts them, counts only the starts, or
writes starts and completions to the log. -/
inductive Role where
  | recorder
  | counter
  | starter
  | logger
  deriving Repr, DecidableEq

/-- A listener, with the objects that it knows; without a list it knows every object. -/
structure Listener where
  role : Role
  objects : Option (List String) := none
  deriving Repr

namespace Listener

/-- Whether a listener knows an object. -/
def knows (l : Listener) (object : String) : Bool :=
  match l.objects with
  | some objects => objects.contains object
  | none => true

/-- The calls among notices that reach a listener. -/
def heard (l : Listener) (notices : List Notice) : List Call :=
  (notices.filterMap Notice.call?).filter fun call => l.knows call.event.object

end Listener

/-- How often an event was started, progressed and was completed. -/
structure Tally where
  started : Nat := 0
  progress : Nat := 0
  completed : Nat := 0
  deriving Repr, DecidableEq

/-- The calls of a list, counted by their phase. -/
def Tally.ofCalls (calls : List Call) : Tally :=
  { started := calls.countP fun call => call.phase == .started
    progress := calls.countP fun call => call.phase == .progress
    completed := calls.countP fun call => call.phase == .completed }

/-- A listener with what it was told.  `calls` can be emptied by whoever reads them. -/
structure Member where
  listener : Listener
  present : Bool := true
  calls : List Call := []
  deriving Repr

/-- A group of listeners, in the order in which they joined. -/
abbrev Audience := List Member

namespace Audience

/-- A group with one listener more. -/
def join (a : Audience) (listener : Listener) : Audience :=
  a ++ [{ listener := listener }]

/-- All listeners leave. -/
def dismiss (a : Audience) : Audience :=
  a.map fun m => { m with present := false }

/-- The listeners that are present. -/
def listeners (a : Audience) : List Listener :=
  (a.filter Member.present).map Member.listener

/-- Tells the listeners that are present what happened. -/
def tell (a : Audience) (notices : List Notice) : Audience :=
  a.map fun m => if m.present then { m with calls := m.calls ++ m.listener.heard notices } else m

/-- Empties the memory of the listeners of a role. -/
def emptied (a : Audience) (role : Role) : Audience :=
  a.map fun m => if m.listener.role = role then { m with calls := [] } else m

end Audience

end PlanPlayback
