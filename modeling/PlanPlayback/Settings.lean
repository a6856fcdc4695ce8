import PlanPlayback.Decimal.Shortest
import PlanPlayback.Numeric.TotalOrder
import PlanPlayback.Text.Blank

/-!
# Settings

The settings say how fast a plan is played and what happens at its end, how long actions last when
a planner does not say so, and how batteries are filled and drained when nothing else is known.
Every setting has a default.

* `Settings.fault?` finds the first setting that makes no sense;
* `FluentSettings.ruleFor?` is the fallback rule for an action.
-/

namespace PlanPlayback

/-- What the clock does at the end of a plan. -/
inductive EndBehavior where
  | stop
  | pause
  deriving Repr, DecidableEq, Inhabited

namespace EndBehavior

/-- The word for a behaviour in documents. -/
def word : EndBehavior → String
  | stop => "stop"
  | pause => "pause"

/-- The behaviour that a word stands for. -/
def ofWord? (text : String) : Option EndBehavior :=
  [stop, pause].find? fun behavior => behavior.word == text

end EndBehavior

/-- How a plan is played. -/
structure PlaybackSettings where
  speed : Float := 1.0
  endBehavior : EndBehavior := .stop
  deriving Repr, Inhabited

/-- How long actions last when the output of a planner does not say so, with the bits of the
classical step for the case that it is no number. -/
structure DurationSettings where
  unstated : Float := 1.0
  zeroSubstitute : Float := 0.1
  classicalStep : Float := 1.0
  stepBits : NaNBits := .quiet false
  deriving Repr, Inhabited

/-- A fallback effect: actions whose name contains `pattern` change a fluent by `delta`. -/
structure FallbackRule where
  pattern : String
  fluent : String
  delta : Float
  deriving Repr, Inhabited

/-- Whether a rule is meant for an action. -/
def FallbackRule.fits (rule : FallbackRule) (action : String) : Bool :=
  Text.contains action rule.pattern

/-- The fallback rules that apply unless others are given. -/
def defaultRules : List FallbackRule :=
  [⟨"recharge", "battery", 50.0⟩, ⟨"charge", "battery", 50.0⟩, ⟨"move", "battery", -20.0⟩,
    ⟨"drive", "battery", -20.0⟩, ⟨"pick", "battery", -5.0⟩, ⟨"drop", "battery", -5.0⟩,
    ⟨"unload", "battery", -5.0⟩, ⟨"load", "battery", -5.0⟩]

/-- The range and the first level of batteries, and the fallback effects. -/
structure FluentSettings where
  batteryLeast : Float := 0.0
  batteryGreatest : Float := 100.0
  batteryInitial : Float := 100.0
  usesRules : Bool := true
  rules : List FallbackRule := defaultRules
  deriving Repr, Inhabited

namespace FluentSettings

/-- The first fallback rule for an action, unless the rules are switched off. -/
def ruleFor? (s : FluentSettings) (action : String) : Option FallbackRule :=
  if s.usesRules then s.rules.find? fun rule => rule.fits action else none

end FluentSettings

/-- All settings. -/
structure Settings where
  playback : PlaybackSettings := {}
  durations : DurationSettings := {}
  fluents : FluentSettings := {}
  deriving Repr, Inhabited

/-- A setting that makes no sense. -/
inductive SettingsFault where
  | speed (value : Float)
  | negativeDuration
  | zeroSubstitute
  | batteryRange (least greatest : Float)
  deriving Repr

/-- The wording of a fault. -/
def SettingsFault.message : SettingsFault → String
  | .speed value => "playback speed must be positive, got " ++ Decimal.positional value
  | .negativeDuration => "action durations must not be negative"
  | .zeroSubstitute => "zero_duration_substitute must be positive"
  | .batteryRange least greatest =>
      "battery_min (" ++ Decimal.positional least ++ ") exceeds battery_max (" ++
        Decimal.positional greatest ++ ")"

/-- The first setting that makes no sense, if there is one. -/
def Settings.fault? (s : Settings) : Option SettingsFault :=
  if !(0.0 < s.playback.speed) then some (.speed s.playback.speed)
  else if s.durations.unstated < 0.0 || s.durations.classicalStep < 0.0 then some .negativeDuration
  else if !(0.0 < s.durations.zeroSubstitute) then some .zeroSubstitute
  else if s.fluents.batteryGreatest < s.fluents.batteryLeast then
    some (.batteryRange s.fluents.batteryLeast s.fluents.batteryGreatest)
  else none

end PlanPlayback
