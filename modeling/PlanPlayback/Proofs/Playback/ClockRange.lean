import PlanPlayback.Proofs.Playback.ClockBounds
import PlanPlayback.Settings.Toml

/-!
# When the clock stays within the plan

An `Operation` is anything that can be done with a clock, with or without a plan, at any time and
with any numbers.  The settings are checked before a clock is made, and `setSpeed` refuses a speed
that is not finite.  The check of the settings does not: it accepts an infinite speed, and the first
empty interval that passes at that speed leaves a time that is no number.

* `Clock.IsSound.operate`: at a finite speed every operation keeps the clock within the plan;
* `Clock.not_isNumber_time_advance`: an empty interval at an infinite speed loses the time;
* `Clock.exists_settings_of_infinite_speed`: a document with such a speed is read and accepted;
* `Clock.endsProperly_advance` and `endsProperly_tick`: what happens at the end, at any speed;
* `Clock.time_in_plan_iff_finite_speed` is the result.
-/

namespace PlanPlayback

open Binary64

namespace Clock

/-- What can be done with a clock. -/
inductive Operation where
  | load (total : Float)
  | unload
  | play
  | pause
  | reset
  | seek (time : Float)
  | setSpeed (speed : Float)
  | setEndBehavior (endBehavior : EndBehavior)
  | advance (nanoseconds : Nat)
  | tick (now : Nat)
  deriving Repr

/-- A clock after an operation. -/
def operate (c : Clock) : Operation → Clock
  | .load total => (c.load total).1
  | .unload => c.unload.1
  | .play => c.play.1
  | .pause => c.pause.1
  | .reset => c.reset.1
  | .seek time => c.seek time
  | .setSpeed speed => (c.setSpeed speed).1
  | .setEndBehavior endBehavior => c.setEndBehavior endBehavior
  | .advance nanoseconds => (c.advance nanoseconds).1
  | .tick now => (c.tick now).1

/-- A clock after some operations. -/
def operateAll (c : Clock) (operations : List Operation) : Clock :=
  operations.foldl operate c

/-- Whether the time of a clock lies within the plan. -/
def InPlan (c : Clock) : Prop :=
  0.0 ≤ c.time ∧ c.time ≤ c.total

/-! ## Finite speeds -/

namespace IsSound

theorem unload {c : Clock} (h : c.IsSound) : c.unload.1.IsSound := by
  have hzero : (0.0 : Float) ≤ 0.0 := by decide
  have hfinite : (0.0 : Float).isFinite = true := by decide
  have hunload : c.unload.1 = (Clock.reset { c with loaded := false, total := 0.0 }).1 := rfl
  rw [hunload, reset_eq]
  exact ⟨hfinite, hzero, hzero, h.speed⟩

theorem operate {c : Clock} (h : c.IsSound) (operation : Operation) :
    (c.operate operation).IsSound := by
  cases operation with
  | load total => exact isSound_load h.speed total
  | unload => exact h.unload
  | play => exact h.play
  | pause => exact h.pause
  | reset => exact h.reset
  | seek time => exact h.seek time
  | setSpeed speed => exact h.setSpeed speed
  | setEndBehavior endBehavior => exact h.of_time rfl rfl h.nonneg h.le_total
  | advance nanoseconds => exact (h.advance nanoseconds).1
  | tick now => exact (h.tick now).1

theorem operateAll {c : Clock} (h : c.IsSound) (operations : List Operation) :
    (c.operateAll operations).IsSound :=
  List.foldlRecOn operations _ h fun _ hc operation _ => hc.operate operation

end IsSound

theorem isSound_ofSettings {settings : PlaybackSettings} (hspeed : isSpeed settings.speed = true) :
    (ofSettings settings).IsSound := by
  have hzero : (0.0 : Float) ≤ 0.0 := by decide
  have hfinite : (0.0 : Float).isFinite = true := by decide
  exact ⟨hfinite, hzero, hzero, hspeed⟩

/-! ## Infinite speeds -/

/-- Nothing passes in an empty interval, and nothing times infinity is no number. -/
theorem not_isNumber_time_advance {c : Clock} (hplaying : c.state = .playing)
    (hspeed : c.speed.isFinite = false) : ¬IsNumber (c.advance 0).1.time := by
  have hseconds : parts (secondsOf 0) = .zero .positive := by rfl
  have hlost : ¬IsNumber (c.time + c.passing 0) := fun h =>
    not_isNumber_zero_mul hseconds hspeed (isNumber_of_add h)
  have hnot_over : ¬c.total ≤ c.time + c.passing 0 := fun h => hlost (le_iff.mp h).2.1
  rw [advance_eq hplaying, if_neg hnot_over]
  exact hlost

/-- A clock that has begun to play. -/
theorem operateAll_load_play (settings : PlaybackSettings) (total : Float) :
    (ofSettings settings).operateAll [.load total, .play] =
      { total := lengthOf total, time := 0.0, state := .playing, speed := settings.speed
        endBehavior := settings.endBehavior, loaded := true, lastTick := none } := by
  have hplay : (ofSettings settings).operateAll [.load total, .play] =
      ((ofSettings settings).load total).1.play.1 := rfl
  rw [hplay, play_eq, load_eq]
  rfl

/-- A document can ask for an infinite speed: the settings in it are read, and pass their check. -/
theorem exists_settings_of_infinite_speed :
    ∃ settings, Toml.settings "[playback]\nspeed = inf" = .ok settings ∧ settings.fault?.isNone ∧
      settings.playback.speed.isFinite = false := by
  have hread : (Toml.settings "[playback]\nspeed = inf").toOption.any
      (fun settings => settings.fault?.isNone && !settings.playback.speed.isFinite) = true := by
    decide +kernel
  cases hsettings : Toml.settings "[playback]\nspeed = inf" with
  | error => simp [hsettings, Except.toOption] at hread
  | ok settings => exact ⟨settings, rfl, by simpa [hsettings, Except.toOption] using hread⟩

/-- The first tick of a run lets no time pass, whatever the speed. -/
theorem not_isNumber_time_tick {settings : PlaybackSettings}
    (hspeed : settings.speed.isFinite = false) (total : Float) (now : Nat) :
    ¬IsNumber ((ofSettings settings).operateAll [.load total, .play, .tick now]).time := by
  change ¬IsNumber (((ofSettings settings).operateAll [.load total, .play]).tick now).1.time
  rw [operateAll_load_play, tick_eq rfl, Option.elim_none]
  exact not_isNumber_time_advance rfl hspeed

/-! ## The end of the plan -/

/-- What becomes of a playing clock: at the end of the plan it is put there exactly and stands still
in the state that its behaviour asks for, and before the end it goes on playing. -/
def EndsProperly (c c' : Clock) : Prop :=
  (c.total ≤ c'.time → c'.time = c.total ∧ c'.state = c.endBehavior.state) ∧
    (¬c.total ≤ c'.time → c'.state = .playing)

theorem endsProperly_advance {c : Clock} (hplaying : c.state = .playing) (nanoseconds : Nat) :
    EndsProperly c (c.advance nanoseconds).1 := by
  rw [advance_eq hplaying]
  split_ifs with hover
  · have hself : c.total ≤ c.total := Binary64.le_refl (le_iff.mp hover).1
    exact ⟨fun _ => ⟨rfl, rfl⟩, fun hnot_over => absurd hself hnot_over⟩
  · exact ⟨fun hend => absurd hend hover, fun _ => hplaying⟩

theorem endsProperly_tick {c : Clock} (hplaying : c.state = .playing) (now : Nat) :
    EndsProperly c (c.tick now).1 := by
  rw [tick_eq hplaying]
  obtain ⟨hend, hbefore⟩ := endsProperly_advance (c := { c with lastTick := some now }) hplaying
    (c.lastTick.elim 0 fun previous => now - previous)
  exact ⟨hend, hbefore⟩

/-- **The clock stays within the plan exactly if its speed is finite.**  The settings pass their
check.  Then every sequence of operations keeps the time between zero and the end of the plan, if
and only if the speed that the settings ask for is finite.  At any speed, a playing clock that has
come to the end is put there exactly and is stopped or paused as its behaviour says. -/
theorem time_in_plan_iff_finite_speed (settings : Settings) (hvalid : settings.fault?.isNone) :
    ((∀ operations, ((ofSettings settings.playback).operateAll operations).InPlan) ↔
        settings.playback.speed.isFinite = true) ∧
      ∀ operations, ((ofSettings settings.playback).operateAll operations).state = .playing →
        ∀ n, EndsProperly ((ofSettings settings.playback).operateAll operations)
            (((ofSettings settings.playback).operateAll operations).operate (.advance n)) ∧
          EndsProperly ((ofSettings settings.playback).operateAll operations)
            (((ofSettings settings.playback).operateAll operations).operate (.tick n)) := by
  have hpos : 0.0 < settings.playback.speed := by
    by_contra hnot_pos
    simp [Settings.fault?, hnot_pos] at hvalid
  refine ⟨⟨fun hrange => ?_, fun hfinite operations => ?_⟩, fun operations hplaying n => ?_⟩
  · by_contra hinfinite
    have hlost := not_isNumber_time_tick (Bool.eq_false_iff.mpr hinfinite) 0.0 0
    exact hlost (le_iff.mp (hrange [.load 0.0, .play, .tick 0]).1).2.1
  · have hspeed : isSpeed settings.playback.speed = true := by
      simp [isSpeed, hfinite, hpos]
    have hsound := (isSound_ofSettings hspeed).operateAll operations
    exact ⟨hsound.nonneg, hsound.le_total⟩
  · exact ⟨endsProperly_advance hplaying n, endsProperly_tick hplaying n⟩

/-- A clock that plays a plan of four seconds for one second, and is to pause at the end. -/
def nearEnd : List Operation :=
  [.setEndBehavior .pause, .load 4.0, .play, .advance 1000000000]

theorem pauses_at_end_of_plan :
    ({} : Settings).fault?.isNone ∧ ((ofSettings {}).operateAll nearEnd).InPlan ∧
      (((ofSettings {}).operateAll nearEnd).operate (.advance 4000000000)).state = .paused := by
  have hvalid : ({} : Settings).fault?.isNone := by decide +kernel
  have hfinite : ({} : Settings).playback.speed.isFinite = true := by decide
  have hplaying : ((ofSettings {}).operateAll nearEnd).state = .playing := by decide +kernel
  have hpause : ((ofSettings {}).operateAll nearEnd).endBehavior = .pause := by decide +kernel
  have hover : ((ofSettings {}).operateAll nearEnd).total ≤
      (((ofSettings {}).operateAll nearEnd).operate (.advance 4000000000)).time := by decide +kernel
  obtain ⟨hrange, hends⟩ := time_in_plan_iff_finite_speed {} hvalid
  refine ⟨hvalid, hrange.mpr hfinite nearEnd, ?_⟩
  rw [((hends nearEnd hplaying 4000000000).1.1 hover).2, hpause]
  rfl

/-- The settings of a document that asks for an infinite speed pass their check, and the first tick
loses the time. -/
theorem not_time_in_plan :
    ¬∀ text settings, Toml.settings text = .ok settings → settings.fault?.isNone →
      ∀ operations, ((ofSettings settings.playback).operateAll operations).InPlan := by
  intro h
  obtain ⟨settings, hread, hvalid, hinfinite⟩ := exists_settings_of_infinite_speed
  have hrange := h _ settings hread hvalid [.load 10.0, .play, .tick 0]
  exact not_isNumber_time_tick hinfinite 10.0 0 (le_iff.mp hrange.1).2.1

end Clock

end PlanPlayback
