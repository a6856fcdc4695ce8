import PlanPlayback.Playback.Clock
import PlanPlayback.Proofs.Binary64.Order

/-!
# The clock stays within the plan

Whatever happens to a clock with a plan, its time is a number between zero and the end of the plan.
Playing never moves it back: the seconds that pass are not negative, rounding included, and at the
end the clock is put exactly there.

* `Clock.load_eq`, `play_eq`, `advance_eq` and so on say what becomes of a clock, one operation at a
  time;
* `Clock.IsSound` is the invariant, which all operations preserve; `isSound_load` establishes it;
* `IsSound.advance` and `IsSound.tick` also say that playing does not go back.
-/

namespace PlanPlayback

open Binary64

theorem secondsOf_nonneg (nanoseconds : Nat) : 0.0 ≤ secondsOf nanoseconds := by
  unfold secondsOf
  exact Binary64.add_nonneg (ofNat_nonneg _)
    (Binary64.div_nonneg (by decide +kernel) (by decide +kernel) (ofNat_nonneg _))

/-- The state in which a clock is left at the end of a plan. -/
def EndBehavior.state : EndBehavior → PlayState
  | stop => .stopped
  | pause => .paused

namespace Clock

/-- A clock at the beginning. -/
theorem reset_eq (c : Clock) :
    c.reset.1 = { c with time := 0.0, state := .stopped, lastTick := none } := by
  unfold reset
  by_cases hstopped : c.state = .stopped
  · simp only [hstopped, if_true]
  · simp only [hstopped, if_false]
    rfl

/-- The length that a clock takes for the length of a plan. -/
def lengthOf (total : Float) : Float :=
  if total.isFinite then larger total 0.0 else 0.0

theorem load_eq (c : Clock) (total : Float) :
    (c.load total).1 =
      { c with
        total := lengthOf total, loaded := true, time := 0.0, state := .stopped
        lastTick := none } :=
  reset_eq { c with total := lengthOf total, loaded := true }

theorem play_eq (c : Clock) : c.play.1 = if c.loaded then { c with state := .playing } else c := by
  unfold play
  cases hloaded : c.loaded with
  | false => rfl
  | true =>
    by_cases hplaying : c.state = .playing
    · rw [if_neg (by decide), if_pos hplaying, if_pos rfl, ← hplaying, ← hloaded]
    · rw [if_neg (by decide), if_neg hplaying, if_pos rfl, ← hloaded]
      rfl

theorem pause_eq (c : Clock) :
    c.pause.1 = if c.state = .playing then { c with state := .paused, lastTick := none } else c := by
  unfold pause
  split_ifs <;> rfl

theorem setSpeed_eq (c : Clock) (speed : Float) :
    (c.setSpeed speed).1 = { c with speed := if isSpeed speed then speed else c.speed } := by
  unfold setSpeed
  split_ifs <;> rfl

theorem advance_of_ne {c : Clock} (h : c.state ≠ .playing) (nanoseconds : Nat) :
    c.advance nanoseconds = (c, []) :=
  if_pos h

/-- What passes of the plan in an interval. -/
def passing (c : Clock) (nanoseconds : Nat) : Float :=
  secondsOf nanoseconds * c.speed

/-- A playing clock is brought to the end of the plan, or as far as the interval leads. -/
theorem advance_eq {c : Clock} (hplaying : c.state = .playing) (n : Nat) :
    (c.advance n).1 =
      if c.total ≤ c.time + c.passing n then
        { c with time := c.total, state := c.endBehavior.state, lastTick := none }
      else { c with time := c.time + c.passing n } := by
  unfold advance passing
  rw [if_neg (not_not_intro hplaying)]
  simp only
  split_ifs
  · cases c.endBehavior <;> rfl
  · rfl

theorem tick_of_ne {c : Clock} (h : c.state ≠ .playing) (now : Nat) :
    (c.tick now).1 = { c with lastTick := none } := by
  unfold tick
  rw [if_pos h]

/-- A tick of a playing clock lets the time since the tick that it remembers pass. -/
theorem tick_eq {c : Clock} (hplaying : c.state = .playing) (now : Nat) :
    c.tick now =
      advance { c with lastTick := some now } (c.lastTick.elim 0 fun previous => now - previous) := by
  unfold tick
  rw [if_neg (not_not_intro hplaying)]
  cases c.lastTick <;> rfl

/-- The length of a plan is a finite number, whatever the plan says. -/
theorem lengthOf_spec (total : Float) :
    (lengthOf total).isFinite = true ∧ 0.0 ≤ lengthOf total := by
  have hzero : (0.0 : Float) ≤ 0.0 := by decide
  unfold lengthOf larger
  split_ifs with hfinite hnone hneg
  · exact ⟨by decide, hzero⟩
  · exact ⟨by decide, hzero⟩
  · exact ⟨hfinite, (Binary64.not_lt (isNumber_of_finite hfinite) isNumber_zero).mp hneg⟩
  · exact ⟨by decide, hzero⟩

@[simp] theorem time_play (c : Clock) : c.play.1.time = c.time := by
  rw [play_eq]
  split_ifs <;> rfl

@[simp] theorem time_pause (c : Clock) : c.pause.1.time = c.time := by
  rw [pause_eq]
  split_ifs <;> rfl

@[simp] theorem time_setSpeed (c : Clock) (speed : Float) :
    (c.setSpeed speed).1.time = c.time := by
  rw [setSpeed_eq]

/-- A time within the plan is reached exactly. -/
theorem time_seek {c : Clock} {time : Float} (hfinite : time.isFinite = true) (hnonneg : 0.0 ≤ time)
    (hle : time ≤ c.total) : (c.seek time).time = time := by
  have hnumber := isNumber_of_finite hfinite
  have hnot_neg : ¬time < 0.0 := (Binary64.not_lt hnumber isNumber_zero).mpr hnonneg
  have hnot_beyond : ¬c.total < time := (Binary64.not_lt (le_iff.mp hle).2.1 hnumber).mpr hle
  unfold seek
  rw [if_pos hfinite]
  simp only
  rw [if_neg hnot_neg, if_neg hnot_beyond]

/-- A clock that stands within its plan and has a positive and finite speed. -/
structure IsSound (c : Clock) : Prop where
  finite : c.total.isFinite = true
  nonneg : 0.0 ≤ c.time
  le_total : c.time ≤ c.total
  speed : isSpeed c.speed = true

namespace IsSound

variable {c : Clock}

theorem time_finite (h : c.IsSound) : c.time.isFinite = true :=
  isFinite_of_between (by decide) h.finite h.nonneg h.le_total

theorem total_nonneg (h : c.IsSound) : 0.0 ≤ c.total :=
  Binary64.le_trans h.nonneg h.le_total

/-- What the operations have to keep: the length of the plan and the speed. -/
theorem of_time {c' : Clock} (h : c.IsSound) (htotal : c'.total = c.total)
    (hspeed : c'.speed = c.speed) (hnonneg : 0.0 ≤ c'.time) (hle : c'.time ≤ c.total) :
    c'.IsSound :=
  ⟨htotal ▸ h.finite, hnonneg, htotal ▸ hle, hspeed ▸ h.speed⟩

theorem reset (h : c.IsSound) : c.reset.1.IsSound := by
  have hzero : (0.0 : Float) ≤ 0.0 := by decide
  rw [reset_eq]
  exact h.of_time rfl rfl hzero h.total_nonneg

theorem seek (h : c.IsSound) (time : Float) : (c.seek time).IsSound := by
  have hzero : (0.0 : Float) ≤ 0.0 := by decide
  -- the three cuts of a jump: no number, before the beginning, beyond the end
  obtain ⟨target, htarget, hfinite⟩ :
      ∃ target, (if time.isFinite then time else 0.0) = target ∧ target.isFinite = true := by
    split_ifs with htime
    · exact ⟨time, rfl, htime⟩
    · exact ⟨0.0, rfl, by decide⟩
  obtain ⟨raised, hraised, hnonneg⟩ :
      ∃ raised, (if target < 0.0 then 0.0 else target) = raised ∧ 0.0 ≤ raised := by
    split_ifs with hneg
    · exact ⟨0.0, rfl, hzero⟩
    · exact ⟨target, rfl, (Binary64.not_lt (isNumber_of_finite hfinite) isNumber_zero).mp hneg⟩
  have htime : (c.seek time).time = if c.total < raised then c.total else raised := by
    rw [← hraised, ← htarget]
    rfl
  have hbounds : 0.0 ≤ (c.seek time).time ∧ (c.seek time).time ≤ c.total := by
    rw [htime]
    split_ifs with hbeyond
    · exact ⟨h.total_nonneg, Binary64.le_refl (isNumber_of_finite h.finite)⟩
    · exact ⟨hnonneg, (Binary64.not_lt (isNumber_of_finite h.finite) (le_iff.mp hnonneg).2.1).mp
        hbeyond⟩
  exact h.of_time rfl rfl hbounds.1 hbounds.2

theorem play (h : c.IsSound) : c.play.1.IsSound := by
  rw [play_eq]
  split_ifs
  · exact h.of_time rfl rfl h.nonneg h.le_total
  · exact h

theorem pause (h : c.IsSound) : c.pause.1.IsSound := by
  rw [pause_eq]
  split_ifs
  · exact h.of_time rfl rfl h.nonneg h.le_total
  · exact h

theorem setSpeed (h : c.IsSound) (speed : Float) : (c.setSpeed speed).1.IsSound := by
  rw [setSpeed_eq]
  split_ifs with hspeed
  · exact ⟨h.finite, h.nonneg, h.le_total, hspeed⟩
  · exact h

/-- Playing does not go back, and stops at the end. -/
theorem advance (h : c.IsSound) (nanoseconds : Nat) :
    (c.advance nanoseconds).1.IsSound ∧ c.time ≤ (c.advance nanoseconds).1.time := by
  have hself : c.time ≤ c.time := Binary64.le_refl (isNumber_of_finite h.time_finite)
  obtain ⟨hfinite, hpos⟩ := Bool.and_eq_true_iff.mp h.speed
  have hpassed : 0.0 ≤ c.passing nanoseconds :=
    Binary64.mul_nonneg hfinite (of_decide_eq_true hpos) (secondsOf_nonneg nanoseconds)
  have hlater : c.time ≤ c.time + c.passing nanoseconds := le_add_of_nonneg h.time_finite hpassed
  have htotal : c.total ≤ c.total := Binary64.le_refl (isNumber_of_finite h.finite)
  by_cases hplaying : c.state = .playing
  · rw [advance_eq hplaying]
    split_ifs with hend
    · exact ⟨h.of_time rfl rfl h.total_nonneg htotal, h.le_total⟩
    · have hbefore := (Binary64.not_le (isNumber_of_finite h.finite) (le_iff.mp hlater).2.1).mp hend
      exact ⟨h.of_time rfl rfl (Binary64.le_trans h.nonneg hlater) (Binary64.le_of_lt hbefore),
        hlater⟩
  · rw [advance_of_ne hplaying]
    exact ⟨h, hself⟩

theorem tick (h : c.IsSound) (now : Nat) :
    (c.tick now).1.IsSound ∧ c.time ≤ (c.tick now).1.time := by
  have hself : c.time ≤ c.time := Binary64.le_refl (isNumber_of_finite h.time_finite)
  have hwith : ∀ lastTick, ({ c with lastTick } : Clock).IsSound := fun lastTick =>
    h.of_time rfl rfl h.nonneg h.le_total
  by_cases hplaying : c.state = .playing
  · rw [tick_eq hplaying]
    exact (hwith (some now)).advance _
  · rw [tick_of_ne hplaying]
    exact ⟨hwith none, hself⟩

end IsSound

/-- A clock with a positive and finite speed is ready for any plan. -/
theorem isSound_load {c : Clock} (hspeed : isSpeed c.speed = true) (total : Float) :
    (c.load total).1.IsSound := by
  have hzero : (0.0 : Float) ≤ 0.0 := by decide
  rw [load_eq]
  exact ⟨(lengthOf_spec total).1, hzero, (lengthOf_spec total).2, hspeed⟩

end Clock

end PlanPlayback
