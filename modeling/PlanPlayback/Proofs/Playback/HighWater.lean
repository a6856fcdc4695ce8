import PlanPlayback.Proofs.Playback.ClockBounds
import PlanPlayback.Proofs.Playback.Control
import PlanPlayback.Proofs.Playback.Loading
import PlanPlayback.Proofs.Playback.Progress

/-!
# The high-water mark

A player does not remember when it visited its schedule.  A `Watch` does: it keeps the times of the
visits since the plan was loaded or rewound, the last one first.  The states of all events follow
from these times (`Watch.IsSettled`), and since an event that is over stays over, all that counts
for what is completed is the latest of them, the high-water mark.  Events that are not completed
stand where the clock stands.

* `Watch.IsSettled.next`: every operation preserves the invariant;
* `Watch.isSettled_ofControls`: it holds of all runs;
* `Player.status_of_high_water` is the result.
-/

namespace PlanPlayback

open Binary64

/-- A player, and the times at which it has visited its schedule since the plan was loaded or
rewound, the last one first. -/
structure Watch where
  player : Player
  times : List Float

namespace Watch

/-- The times of the visits after an operation on a player. -/
def timesAfter (p : Player) (times : List Float) : Control → List Float
  | .play => (p.perform .play).clock.time :: if p.startsOver then [] else times
  | .seek time => (p.perform (.seek time)).clock.time :: times
  | .advance nanoseconds => (p.perform (.advance nanoseconds)).clock.time :: times
  | .tick now => (p.perform (.tick now)).clock.time :: times
  | .reset => []
  | .pause | .setSpeed _ => times

/-- A watch after an operation on its player. -/
def next (w : Watch) (c : Control) : Watch :=
  ⟨w.player.perform c, timesAfter w.player w.times c⟩

/-- A watch on a player that has just been given a plan, after some operations. -/
def ofControls (p : Player) (controls : List Control) : Watch :=
  controls.foldl next ⟨p, []⟩

theorem player_ofControls (p : Player) (controls : List Control) :
    (ofControls p controls).player = p.run controls := by
  have hrun : ∀ w : Watch, (controls.foldl next w).player = w.player.run controls := by
    induction controls with
    | nil => exact fun w => rfl
    | cons c rest ih => exact fun w => ih (w.next c)
  exact hrun ⟨p, []⟩

/-- The events are those that the visits have made of them, and the last visit was at the time of
the clock. -/
structure IsSettled (events : List Event) (w : Watch) : Prop where
  hasPlan : w.player.plan.isNone = false
  clock : w.player.clock.IsSound
  settled : w.player.schedule.events = events.map (·.settledBy w.times)
  last : ∀ time ∈ w.times.head?, time = w.player.clock.time
  finite : ∀ time ∈ w.times, time.isFinite = true

namespace IsSettled

variable {events : List Event} {p : Player} {times : List Float}

/-- An operation that leaves the time and the schedule as they are. -/
theorem withClock (h : IsSettled events ⟨p, times⟩) {clock : Clock} (hsound : clock.IsSound)
    (htime : clock.time = p.clock.time) : IsSettled events ⟨p.withClock clock, times⟩ :=
  ⟨h.hasPlan, hsound, h.settled, fun time hlast => (h.last time hlast).trans htime.symm, h.finite⟩

/-- An operation that rewinds the schedule. -/
theorem reset (h : IsSettled events ⟨p, times⟩) : IsSettled events ⟨p.reset.1, []⟩ := by
  refine ⟨h.hasPlan, h.clock.reset, ?_, nofun, nofun⟩
  change p.schedule.events.map Event.rewind = events.map Event.rewind
  rw [h.settled, List.map_map]
  exact List.map_congr_left fun e _ => e.rewind_settledBy times

theorem finite_cons (h : IsSettled events ⟨p, times⟩) {clock : Clock} (hsound : clock.IsSound) :
    ∀ time ∈ clock.time :: times, time.isFinite = true :=
  List.forall_mem_cons.mpr ⟨hsound.time_finite, h.finite⟩

/-- An operation that lets time pass. -/
theorem update (h : IsSettled events ⟨p, times⟩) {clock : Clock} (hsound : clock.IsSound)
    (hle : p.clock.time ≤ clock.time) :
    IsSettled events ⟨(p.withClock clock).visited (.update clock.time), clock.time :: times⟩ := by
  refine ⟨h.hasPlan, hsound, ?_, fun _ hlast => (Option.mem_some.mp hlast).symm,
    h.finite_cons hsound⟩
  change p.schedule.events.map (·.advanced clock.time) = _
  rw [h.settled, List.map_map]
  exact List.map_congr_left fun e _ => e.advanced_settledBy fun last hlast =>
    h.last last hlast ▸ hle

/-- An operation that jumps. -/
theorem jump (h : IsSettled events ⟨p, times⟩) {clock : Clock} (hsound : clock.IsSound) :
    IsSettled events ⟨(p.withClock clock).visited (.jump clock.time), clock.time :: times⟩ := by
  refine ⟨h.hasPlan, hsound, ?_, fun _ hlast => (Option.mem_some.mp hlast).symm,
    h.finite_cons hsound⟩
  change p.schedule.events.map (fun e => e.forget.advanced clock.time) = _
  rw [h.settled, List.map_map]
  exact List.map_congr_left fun e _ => e.advanced_forget_settledBy times clock.time

theorem play (h : IsSettled events ⟨p, times⟩) :
    IsSettled events ⟨p.perform .play, timesAfter p times .play⟩ := by
  -- the times of the visits before playing: none if the plan starts over
  have hbefore : IsSettled events ⟨p.atPlay, if p.startsOver then [] else times⟩ := by
    unfold Player.atPlay
    split
    · exact h.reset
    · exact h
  have htime := p.atPlay.clock.time_play
  have hle : p.atPlay.clock.time ≤ p.atPlay.clock.play.1.time :=
    htime.symm ▸ Binary64.le_refl (isNumber_of_finite hbefore.clock.time_finite)
  rw [timesAfter, Player.perform_play h.hasPlan]
  exact hbefore.update hbefore.clock.play hle

end IsSettled

/-- Every operation preserves the invariant. -/
theorem IsSettled.next {events : List Event} {w : Watch} (h : w.IsSettled events) (c : Control) :
    (w.next c).IsSettled events := by
  obtain ⟨p, times⟩ := w
  cases c with
  | play => exact h.play
  | pause => exact h.withClock h.clock.pause p.clock.time_pause
  | reset => exact h.reset
  | seek time =>
    change IsSettled events ⟨p.perform (.seek time), (p.perform (.seek time)).clock.time :: times⟩
    rw [Player.perform_seek]
    exact h.jump (h.clock.seek time)
  | advance nanoseconds =>
    obtain ⟨hsound, hle⟩ := h.clock.advance nanoseconds
    change IsSettled events ⟨p.perform (.advance nanoseconds),
      (p.perform (.advance nanoseconds)).clock.time :: times⟩
    rw [Player.perform_advance]
    exact h.update hsound hle
  | tick now =>
    obtain ⟨hsound, hle⟩ := h.clock.tick now
    change IsSettled events ⟨p.perform (.tick now), (p.perform (.tick now)).clock.time :: times⟩
    rw [Player.perform_tick]
    exact h.update hsound hle
  | setSpeed speed => exact h.withClock (h.clock.setSpeed speed) (p.clock.time_setSpeed speed)

/-- A plan that has just been loaded has not been visited. -/
theorem isSettled_load {p : Player} (hspeed : Clock.isSpeed p.clock.speed = true) (plan : Plan)
    (context : Context) :
    IsSettled (p.load plan context).1.schedule.events ⟨(p.load plan context).1, []⟩ := by
  have hrewind : ∀ e ∈ (p.load plan context).1.schedule.events, e.rewind = e := fun e he =>
    Schedule.rewind_of_mem he
  exact ⟨rfl, Clock.isSound_load hspeed _, (Event.map_settledBy_nil hrewind).symm, nofun, nofun⟩

theorem isSettled_ofControls {p : Player} (hspeed : Clock.isSpeed p.clock.speed = true)
    (plan : Plan) (context : Context) (controls : List Control) :
    (ofControls (p.load plan context).1 controls).IsSettled
      (p.load plan context).1.schedule.events := by
  have hrun : ∀ w : Watch, w.IsSettled (p.load plan context).1.schedule.events →
      (controls.foldl next w).IsSettled (p.load plan context).1.schedule.events := by
    induction controls with
    | nil => exact fun w h => h
    | cons c rest ih => exact fun w h => ih (w.next c) (h.next c)
  exact hrun _ (isSettled_load hspeed plan context)

/-- There is a latest visit. -/
theorem exists_latest {times : List Float} (hne : times ≠ [])
    (hfinite : ∀ time ∈ times, time.isFinite = true) :
    ∃ latest ∈ times, ∀ time ∈ times, time ≤ latest := by
  induction times with
  | nil => exact absurd rfl hne
  | cons time earlier ih =>
    obtain ⟨htime, hearlier⟩ := List.forall_mem_cons.mp hfinite
    have hself := Binary64.le_refl (isNumber_of_finite htime)
    by_cases hnil : earlier = []
    · exact ⟨time, List.mem_cons_self, List.forall_mem_cons.mpr ⟨hself, hnil ▸ nofun⟩⟩
    · obtain ⟨latest, hlatest, hle⟩ := ih hnil hearlier
      rcases Binary64.le_total (isNumber_of_finite htime)
        (isNumber_of_finite (hearlier latest hlatest)) with h | h
      · exact ⟨latest, List.mem_cons_of_mem _ hlatest, List.forall_mem_cons.mpr ⟨h, hle⟩⟩
      · exact ⟨time, List.mem_cons_self, List.forall_mem_cons.mpr
          ⟨hself, fun other hother => Binary64.le_trans (hle other hother) h⟩⟩

/-- The state of an event, from the latest visit and the last one. -/
theorem status_settledBy {e : Event} {times : List Float} {latest last : Float}
    (hstart : e.start.isFinite = true) (hfinite : ∀ time ∈ times, time.isFinite = true)
    (hlatest : latest ∈ times) (hle : ∀ time ∈ times, time ≤ latest) (hlast : last ∈ times.head?) :
    ((e.settledBy times).status = .completed ↔ e.start ≤ latest ∧ 1.0 ≤ e.progressAt latest) ∧
      ((e.settledBy times).status ≠ .completed →
        (e.start ≤ last → (e.settledBy times).status = .started ∧
          (e.settledBy times).progress = e.progressAt last) ∧
        (¬e.start ≤ last → (e.settledBy times).status = .pending ∧
          (e.settledBy times).progress = 0.0)) := by
  have hnot_lt : ∀ time ∈ times, ¬time < e.start ↔ e.start ≤ time := fun time htime =>
    Binary64.not_lt (isNumber_of_finite (hfinite time htime)) (isNumber_of_finite hstart)
  -- what was over at any visit was over at the latest one
  have hany := e.any_isOverAt hfinite hlatest hle
  have hover : times.any e.isOverAt = true ↔ e.start ≤ latest ∧ 1.0 ≤ e.progressAt latest := by
    rw [hany, Event.isOverAt, Bool.and_eq_true, Bool.not_eq_true', decide_eq_false_iff_not,
      hnot_lt latest hlatest, Event.isPastAt, decide_eq_true_iff]
  cases times with
  | nil => cases hlast
  | cons time earlier =>
    obtain rfl : time = last := Option.mem_some.mp hlast
    rw [← hover, ← hnot_lt time List.mem_cons_self]
    cases hany' : (time :: earlier).any e.isOverAt with
    | true =>
      rw [Event.settledBy_of_over hany']
      exact ⟨⟨fun _ => rfl, fun _ => rfl⟩, fun hne => absurd rfl hne⟩
    | false =>
      rw [Event.settledBy, hany', if_neg Bool.false_ne_true]
      by_cases hwaiting : time < e.start
      · rw [if_pos hwaiting]
        refine ⟨iff_of_false (fun hstatus => ?_) Bool.false_ne_true,
          fun _ => ⟨fun h => absurd hwaiting h, fun _ => ⟨rfl, rfl⟩⟩⟩
        cases hstatus
      · rw [if_neg hwaiting]
        refine ⟨iff_of_false (fun hstatus => ?_) Bool.false_ne_true,
          fun _ => ⟨fun _ => ⟨rfl, rfl⟩, fun h => absurd hwaiting h⟩⟩
        cases hstatus

end Watch

namespace Player

/-- **The clock and the high-water mark determine the states of all events.**  A plan is loaded, and
any operations follow.  If the player has visited the schedule since the plan was loaded or rewound,
there is a latest visit, the high-water mark; an event is completed if and only if it was over then,
and any other event stands where the clock stands. -/
theorem status_of_high_water (p : Player) (plan : Plan) (context : Context)
    (controls : List Control) (hspeed : Clock.isSpeed p.clock.speed = true)
    (hstart : ∀ action ∈ plan.actions, action.start.isFinite = true) :
    let w := Watch.ofControls (p.load plan context).1 controls
    w.player = (p.load plan context).1.run controls ∧
      w.player.schedule.events.map Event.rewind = (p.load plan context).1.schedule.events ∧
      (w.times ≠ [] → ∃ latest ∈ w.times, ∀ time ∈ w.times, time ≤ latest) ∧
      ∀ latest ∈ w.times, (∀ time ∈ w.times, time ≤ latest) →
        ∀ e ∈ w.player.schedule.events,
          (e.status = .completed ↔ e.start ≤ latest ∧ 1.0 ≤ e.progressAt latest) ∧
          (e.status ≠ .completed →
            (e.start ≤ w.player.clock.time →
              e.status = .started ∧ e.progress = e.progressAt w.player.clock.time) ∧
            (¬e.start ≤ w.player.clock.time → e.status = .pending ∧ e.progress = 0.0)) := by
  intro w
  have hsettled : w.IsSettled (p.load plan context).1.schedule.events :=
    Watch.isSettled_ofControls hspeed plan context controls
  refine ⟨Watch.player_ofControls _ controls, ?_,
    fun hne => Watch.exists_latest hne hsettled.finite, fun latest hlatest hle e he => ?_⟩
  · have hrewind : ∀ e ∈ (p.load plan context).1.schedule.events,
        (Event.rewind ∘ (·.settledBy w.times)) e = id e := fun e he =>
      (e.rewind_settledBy w.times).trans (Schedule.rewind_of_mem he)
    rw [hsettled.settled, List.map_map, List.map_congr_left hrewind, List.map_id]
  · rw [hsettled.settled] at he
    obtain ⟨e₀, he₀, rfl⟩ := List.mem_map.mp he
    obtain ⟨action, haction, hsame⟩ := Schedule.exists_action_of_mem he₀
    obtain ⟨last, hlast⟩ : ∃ last, last ∈ w.times.head? := by
      cases htimes : w.times with
      | nil => exact absurd hlatest (htimes ▸ List.not_mem_nil)
      | cons time earlier => exact ⟨time, rfl⟩
    rw [Event.start_settledBy, Event.progressAt_settledBy, Event.progressAt_settledBy,
      ← hsettled.last last hlast]
    exact Watch.status_settledBy (hsame ▸ hstart action haction) hsettled.finite hlatest hle hlast

/-- A ride of four seconds. -/
def ride : Plan :=
  { dialect := .temporal, actions := [.make "drive" ["rover", "base", "crater"] 0.0 4.0]
    totalDuration := 4.0, cost := 4.0, statistics := {} }

/-- The ride is over after five seconds, and going back does not change that. -/
theorem ride_is_over_after_going_back :
    Clock.isSpeed (ofSettings {}).clock.speed = true ∧
      (∀ action ∈ ride.actions, action.start.isFinite = true) ∧
      ∀ e ∈ (((ofSettings {}).load ride {}).1.run
          [.play, .advance 5000000000, .seek 1.0]).schedule.events, e.status = .completed := by
  have hspeed : Clock.isSpeed (ofSettings {}).clock.speed = true := by decide
  have hstart : ∀ action ∈ ride.actions, action.start.isFinite = true := by decide +kernel
  obtain ⟨hplayer, -, -, hstatus⟩ := status_of_high_water (ofSettings {}) ride {}
    [.play, .advance 5000000000, .seek 1.0] hspeed hstart
  have htimes : (Watch.ofControls ((ofSettings {}).load ride {}).1
      [.play, .advance 5000000000, .seek 1.0]).times = [1.0, 4.0, 0.0] := by decide +kernel
  have hover : ∀ e ∈ (Watch.ofControls ((ofSettings {}).load ride {}).1
      [.play, .advance 5000000000, .seek 1.0]).player.schedule.events,
      e.start ≤ 4.0 ∧ 1.0 ≤ e.progressAt 4.0 := by decide +kernel
  rw [htimes] at hstatus
  rw [← hplayer]
  refine ⟨hspeed, hstart, fun e he => ?_⟩
  exact (hstatus 4.0 (List.mem_cons_of_mem _ List.mem_cons_self) (by decide) e he).1.mpr
    (hover e he)

end Player

end PlanPlayback
