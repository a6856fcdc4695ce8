import PlanPlayback.Numeric.Fluent
import PlanPlayback.Playback.Event
import PlanPlayback.Settings

/-!
# The clock

The clock of a player runs from zero to the end of the plan while the plan is playing, and stands
still otherwise.  Wall-clock time is counted in nanoseconds; the speed says how many seconds of the
plan pass in a second.

* `play`, `pause`, `reset` and `seek` are the controls;
* `advance` lets an interval pass, `tick` the time since the previous tick;
* reaching the end stops or pauses the clock, with the time exactly at the end.

Each operation returns the clock and the changes of state that it made, as `Transition`s.
-/

namespace PlanPlayback

/-- Whether a plan is playing. -/
inductive PlayState where
  | stopped
  | playing
  | paused
  deriving Repr, DecidableEq, Inhabited

/-- The name of a state in machine-readable output. -/
def PlayState.tag : PlayState → String
  | .stopped => "stopped"
  | .playing => "playing"
  | .paused => "paused"

/-- A clock for a plan.  `lastTick` is the instant of the previous tick of an uninterrupted run. -/
structure Clock where
  total : Float
  time : Float
  state : PlayState
  speed : Float
  endBehavior : EndBehavior
  loaded : Bool
  lastTick : Option Nat
  deriving Repr, Inhabited

/-- A change of state, with the time at which it happened. -/
structure Transition where
  before : PlayState
  after : PlayState
  time : Float
  deriving Repr

/-- The number of seconds in an interval of nanoseconds. -/
def secondsOf (nanoseconds : Nat) : Float :=
  Float.ofNat (nanoseconds / 1000000000) + Float.ofNat (nanoseconds % 1000000000) / 1000000000.0

namespace Clock

/-- A clock without a plan. -/
def ofSettings (settings : PlaybackSettings) : Clock :=
  { total := 0.0, time := 0.0, state := .stopped, speed := settings.speed,
    endBehavior := settings.endBehavior, loaded := false, lastTick := none }

/-- Changes the state.  Only a playing clock remembers the previous tick. -/
def turn (c : Clock) (next : PlayState) : Clock × List Transition :=
  ({ c with state := next, lastTick := if next = .playing then c.lastTick else none },
    [⟨c.state, next, c.time⟩])

/-- Back to zero, stopped. -/
def reset (c : Clock) : Clock × List Transition :=
  let rewound := { c with time := 0.0 }
  let (next, transitions) := if c.state = .stopped then (rewound, []) else rewound.turn .stopped
  ({ next with lastTick := none }, transitions)

/-- Makes the clock ready for a plan of the given length; a length that is not finite counts as
zero. -/
def load (c : Clock) (total : Float) : Clock × List Transition :=
  let total := if total.isFinite then larger total 0.0 else 0.0
  { c with total, loaded := true }.reset

/-- Forgets the plan. -/
def unload (c : Clock) : Clock × List Transition :=
  { c with loaded := false, total := 0.0 }.reset

/-- Whether a plan is loaded and the clock is at its end. -/
def isOver (c : Clock) : Bool :=
  c.loaded && c.total <= c.time

/-- The part of the plan that has been played; an empty plan counts as played. -/
def progress (c : Clock) : Float :=
  if c.total <= 0.0 then if c.loaded then 1.0 else 0.0
  else Event.unitClamp (c.time / c.total)

/-- Whether a speed is finite and positive. -/
def isSpeed (speed : Float) : Bool :=
  speed.isFinite && 0.0 < speed

/-- Changes the speed, unless the new one is not positive and finite. -/
def setSpeed (c : Clock) (speed : Float) : Clock × Bool :=
  if isSpeed speed then ({ c with speed }, true) else (c, false)

/-- Changes what happens at the end of the plan. -/
def setEndBehavior (c : Clock) (endBehavior : EndBehavior) : Clock :=
  { c with endBehavior }

/-- Starts or resumes playing, if a plan is loaded; the answer says whether the clock is playing. -/
def play (c : Clock) : Clock × Bool × List Transition :=
  if !c.loaded then (c, false, [])
  else if c.state = .playing then (c, true, [])
  else
    let (next, transitions) := c.turn .playing
    (next, true, transitions)

/-- Pauses a playing clock; the answer says whether it was playing. -/
def pause (c : Clock) : Clock × Bool × List Transition :=
  if c.state = .playing then
    let (next, transitions) := c.turn .paused
    (next, true, transitions)
  else (c, false, [])

/-- Moves the clock to a time, or to the nearest one within the plan; a time that is not finite
counts as zero. -/
def seek (c : Clock) (time : Float) : Clock :=
  let target := if time.isFinite then time else 0.0
  let raised := if target < 0.0 then 0.0 else target
  { c with time := if c.total < raised then c.total else raised }

/-- Lets an interval of wall-clock time pass. -/
def advance (c : Clock) (nanoseconds : Nat) : Clock × List Transition :=
  if c.state ≠ .playing then (c, [])
  else
    let time := c.time + secondsOf nanoseconds * c.speed
    if c.total <= time then
      { c with time := c.total }.turn (match c.endBehavior with
        | .stop => .stopped
        | .pause => .paused)
    else ({ c with time }, [])

/-- Lets the time since the previous tick pass.  The first tick of a run only remembers its
instant. -/
def tick (c : Clock) (now : Nat) : Clock × List Transition :=
  if c.state ≠ .playing then ({ c with lastTick := none }, [])
  else
    let elapsed := match c.lastTick with
      | some previous => now - previous
      | none => 0
    { c with lastTick := some now }.advance elapsed

end Clock

end PlanPlayback
