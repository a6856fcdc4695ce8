import PlanPlayback.Playback.Schedule

/-!
# The player

A player owns the clock, the schedule and the fluents of one plan.  Every operation moves the clock
and then brings the schedule in line with it; it returns the player and the notices of what
happened, in order.  A `Frame` is what is shown of a player at a moment.
-/

namespace PlanPlayback

/-- A player, with the plan that it plays, if one is loaded. -/
structure Player where
  clock : Clock
  schedule : Schedule := {}
  store : Store := {}
  settings : FluentSettings
  plan : Option Plan := none
  deriving Repr

/-- What is shown of a player: the clock, the actions and the fluents. -/
structure Frame where
  time : Float
  state : PlayState
  current : Option Action
  next : Option Action
  fluents : List (String × Float)
  deriving Repr

namespace Player

/-- A player without a plan. -/
def ofSettings (settings : Settings) : Player :=
  { clock := Clock.ofSettings settings.playback, settings := settings.fluents }

/-- Loads a plan in the place of the one before. -/
def load (p : Player) (plan : Plan) (context : Context) : Player × List Notice :=
  let resolution := plan.resolve context p.settings
  let schedule := Schedule.ofPlan plan resolution
  let (clock, transitions) := p.clock.load plan.totalDuration
  ({ p with clock, schedule, store := resolution.store, plan := some plan },
    transitions.map .turned ++
      [.loaded plan.dialect plan.actions.length schedule.events.length
        resolution.store.fluents.length plan.totalDuration])

/-- Forgets the plan. -/
def unload (p : Player) : Player × List Notice :=
  let (clock, transitions) := p.clock.unload
  ({ p with clock, schedule := {}, store := {}, plan := none }, transitions.map .turned)

/-- Brings the schedule in line with the clock. -/
def reconcile (p : Player) : Player × List Notice :=
  let pass := p.schedule.update p.clock.time p.store
  ({ p with schedule := ⟨pass.events⟩, store := pass.store }, pass.notices)

/-- Back to the beginning: the clock at zero, the events as before they began, and the fluents at
their initial values. -/
def reset (p : Player) : Player × List Notice :=
  let (clock, transitions) := p.clock.reset
  ({ p with clock, schedule := p.schedule.rewind, store := p.store.reset },
    transitions.map .turned ++ [.rewound])

/-- Starts playing; a plan that is at its end starts over.  Without a plan nothing happens, and the
answer is no. -/
def play (p : Player) : Player × Bool × List Notice :=
  if p.plan.isNone then
    let (clock, playing, transitions) := p.clock.play
    ({ p with clock }, playing, transitions.map .turned)
  else
    let (first, rewound) :=
      if p.clock.isOver && p.clock.state != .playing then p.reset else (p, [])
    let (clock, playing, transitions) := first.clock.play
    let (last, notices) := { first with clock }.reconcile
    (last, playing, rewound ++ transitions.map .turned ++ notices)

/-- Pauses. -/
def pause (p : Player) : Player × Bool × List Notice :=
  let (clock, paused, transitions) := p.clock.pause
  ({ p with clock }, paused, transitions.map .turned)

/-- Changes the speed. -/
def setSpeed (p : Player) (speed : Float) : Player × Bool :=
  let (clock, accepted) := p.clock.setSpeed speed
  ({ p with clock }, accepted)

/-- Jumps to a time. -/
def seek (p : Player) (time : Float) : Player × List Notice :=
  let clock := p.clock.seek time
  let pass := p.schedule.seek clock.time p.store
  ({ p with clock, schedule := ⟨pass.events⟩, store := pass.store },
    .sought time clock.time clock.state :: pass.notices)

/-- Lets an interval of wall-clock time pass. -/
def advance (p : Player) (nanoseconds : Nat) : Player × List Notice :=
  let (clock, transitions) := p.clock.advance nanoseconds
  let (last, notices) := { p with clock }.reconcile
  (last, transitions.map .turned ++ notices)

/-- Lets the time since the previous tick pass. -/
def tick (p : Player) (now : Nat) : Player × List Notice :=
  let (clock, transitions) := p.clock.tick now
  let (last, notices) := { p with clock }.reconcile
  (last, transitions.map .turned ++ notices)

/-- What is shown at the moment. -/
def frame (p : Player) : Frame :=
  { time := p.clock.time
    state := p.clock.state
    current := p.plan.bind fun plan => plan.actionAt? p.clock.time
    next := p.plan.bind fun plan => plan.nextAfter? p.clock.time
    fluents := p.store.values }

end Player

end PlanPlayback
