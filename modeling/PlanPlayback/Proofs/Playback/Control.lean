import PlanPlayback.Playback.Player
import PlanPlayback.Proofs.Playback.Visit

/-!
# Controlling a player

A player is operated by `Control`s; `Player.run` is the player after some of them, and
`Player.frames` is what is shown after each.  Every operation moves the clock first, and then visits
the schedule or not:

* `Player.visited` is a player after a visit of its schedule;
* `Player.perform_advance`, `perform_tick`, `perform_seek` and `perform_play` write the operations
  with it.
-/

namespace PlanPlayback

/-- What can be done with a player that has a plan. -/
inductive Control where
  | play
  | pause
  | reset
  | seek (time : Float)
  | advance (nanoseconds : Nat)
  | tick (now : Nat)
  | setSpeed (speed : Float)
  deriving Repr

namespace Player

/-- A player after an operation. -/
def perform (p : Player) : Control → Player
  | .play => p.play.1
  | .pause => p.pause.1
  | .reset => p.reset.1
  | .seek time => (p.seek time).1
  | .advance nanoseconds => (p.advance nanoseconds).1
  | .tick now => (p.tick now).1
  | .setSpeed speed => (p.setSpeed speed).1

/-- A player after some operations. -/
def run (p : Player) (controls : List Control) : Player :=
  controls.foldl perform p

/-- What is shown after each of some operations. -/
def frames (p : Player) : List Control → List Frame
  | [] => []
  | c :: rest => (p.perform c).frame :: (p.perform c).frames rest

/-- A player with another clock. -/
def withClock (p : Player) (clock : Clock) : Player :=
  { p with clock }

/-- A player after a visit of its schedule. -/
def visited (p : Player) (v : Visit) : Player :=
  { p with
    schedule := ⟨p.schedule.events.map v.after⟩
    store := (p.schedule.events.filter v.completes).foldl Store.settle p.store }

theorem reconcile_eq (p : Player) : p.reconcile.1 = p.visited (.update p.clock.time) := by
  obtain ⟨hevents, hstore, -⟩ := p.schedule.visit_spec (.update p.clock.time) p.store
  have hreconcile : p.reconcile.1 =
      { p with
        schedule := ⟨(p.schedule.visit (.update p.clock.time) p.store).events⟩
        store := (p.schedule.visit (.update p.clock.time) p.store).store } := rfl
  rw [hreconcile, hevents, hstore]
  rfl

theorem perform_seek (p : Player) (time : Float) :
    p.perform (.seek time) =
      (p.withClock (p.clock.seek time)).visited (.jump (p.clock.seek time).time) := by
  obtain ⟨hevents, hstore, -⟩ := p.schedule.visit_spec (.jump (p.clock.seek time).time) p.store
  have hseek : p.perform (.seek time) =
      { p with
        clock := p.clock.seek time
        schedule := ⟨(p.schedule.visit (.jump (p.clock.seek time).time) p.store).events⟩
        store := (p.schedule.visit (.jump (p.clock.seek time).time) p.store).store } := rfl
  rw [hseek, hevents, hstore]
  rfl

theorem perform_advance (p : Player) (nanoseconds : Nat) :
    p.perform (.advance nanoseconds) =
      (p.withClock (p.clock.advance nanoseconds).1).visited
        (.update (p.clock.advance nanoseconds).1.time) :=
  (p.withClock (p.clock.advance nanoseconds).1).reconcile_eq

theorem perform_tick (p : Player) (now : Nat) :
    p.perform (.tick now) =
      (p.withClock (p.clock.tick now).1).visited (.update (p.clock.tick now).1.time) :=
  (p.withClock (p.clock.tick now).1).reconcile_eq

/-- Whether playing begins with going back to the beginning. -/
def startsOver (p : Player) : Bool :=
  p.clock.isOver && p.clock.state != .playing

/-- The player that begins to play. -/
def atPlay (p : Player) : Player :=
  if p.startsOver then p.reset.1 else p

theorem perform_play {p : Player} (h : p.plan.isNone = false) :
    p.perform .play =
      (p.atPlay.withClock p.atPlay.clock.play.1).visited (.update p.atPlay.clock.play.1.time) := by
  have hplay : p.perform .play = (p.atPlay.withClock p.atPlay.clock.play.1).reconcile.1 := by
    unfold perform play atPlay startsOver
    rw [h]
    cases p.clock.isOver && p.clock.state != .playing <;> rfl
  rw [hplay, reconcile_eq]
  rfl

theorem perform_play_of_no_plan {p : Player} (h : p.plan.isNone = true) :
    p.perform .play = p.withClock p.clock.play.1 := by
  unfold perform play
  rw [h]
  rfl

end Player

end PlanPlayback
