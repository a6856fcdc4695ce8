import PlanPlayback.Playback.Simulation
import PlanPlayback.Proofs.Binary64.Absorption
import PlanPlayback.Proofs.Playback.ClockRange
import PlanPlayback.Proofs.Playback.Rewind
import PlanPlayback.Proofs.Session

/-!
# When a simulation ends

A simulation lets equal intervals pass until the clock no longer runs.  The command line accepts any
step that is positive and finite, and that is too much: a step of `2 ^ 64` seconds or more is no
interval, and a step may be so short that it is no nanosecond, or that the clock does not move when it
passes.

## Strategy

`Clock.IsMovedBy` says that an interval moves the clock from every time before the end of the plan.

* If it does, then every moment of the simulation is later than the one before, and its bits are
  larger, so that the recursion of `Player.playOut?` goes on until the end.
* If it does not, then there is a time that the clock cannot leave.  Addition is monotone, so the
  clock never gets beyond this time either when it starts before.

An interval moves the clock in particular if the plan is at most `2 ^ 53` times as long as what
passes of it (`isMovedBy_of_le`).
-/

namespace PlanPlayback

open Binary64

/-! ## Intervals -/

theorem roundedQuotient_le (m n : ℕ) : Decimal.roundedQuotient m n ≤ m / n + 1 := by
  unfold Decimal.roundedQuotient
  simp only
  split_ifs <;> omega

theorem roundedQuotient_one (m : ℕ) : Decimal.roundedQuotient m 1 = m := by
  unfold Decimal.roundedQuotient
  simp only [Nat.mod_one, Nat.mul_zero, Nat.div_one, Nat.zero_lt_one, if_true]

/-- The nanoseconds of a number of seconds fit if the seconds do. -/
theorem nanoseconds_lt_iff {m : ℕ} (hm : m < 2 ^ 53) {e : ℤ} (he : -1074 ≤ e) :
    Decimal.roundedQuotient (Decimal.ratio (m * 10 ^ 9) e 0).1 (Decimal.ratio (m * 10 ^ 9) e 0).2 <
        2 ^ 64 * 10 ^ 9 ↔
      size m e < size (2 ^ 64) 0 := by
  change Decimal.roundedQuotient (m * 10 ^ 9 * 2 ^ e.toNat * 1) (2 ^ (-e).toNat * 1) < _ ↔ _
  obtain ⟨quantum, hquantum⟩ : ∃ k, ((0 : ℤ) + 1074).toNat = k := ⟨_, rfl⟩
  rw [Nat.mul_one, Nat.mul_one, size, size, hquantum]
  rcases le_or_gt 0 e with hwhole | hfraction
  -- a whole number of seconds is a whole number of nanoseconds
  · have hnone : (-e).toNat = 0 := by omega
    have hexponent : (e + 1074).toNat = e.toNat + quantum := by omega
    rw [hnone, pow_zero, roundedQuotient_one, hexponent, pow_add, ← mul_assoc,
      Nat.mul_lt_mul_right (Nat.two_pow_pos _), Nat.mul_right_comm,
      Nat.mul_lt_mul_right (by decide)]
  -- any other number with 53 digits is less than `2 ^ 53`
  · have hnone : e.toNat = 0 := by omega
    have hle : 2 ^ (e + 1074).toNat ≤ 2 ^ quantum := Nat.pow_le_pow_right two_pos (by omega)
    have hseconds : m * 2 ^ (e + 1074).toNat < 2 ^ 64 * 2 ^ quantum :=
      calc m * 2 ^ (e + 1074).toNat < 2 ^ 53 * 2 ^ (e + 1074).toNat :=
            Nat.mul_lt_mul_of_pos_right hm (Nat.two_pow_pos _)
        _ ≤ 2 ^ 64 * 2 ^ quantum := Nat.mul_le_mul (by decide) hle
    refine ⟨fun _ => hseconds, fun _ => ?_⟩
    rw [hnone, pow_zero, Nat.mul_one]
    calc Decimal.roundedQuotient (m * 10 ^ 9) (2 ^ (-e).toNat)
        ≤ m * 10 ^ 9 / 2 ^ (-e).toNat + 1 := roundedQuotient_le _ _
      _ ≤ m * 10 ^ 9 + 1 := Nat.add_le_add_right (Nat.div_le_self _ _) 1
      _ < 2 ^ 64 * 10 ^ 9 := by omega

/-- **A step is an interval if it is shorter than `2 ^ 64` seconds.** -/
theorem isSome_nanosecondsOf?_iff {step : Float} (hfinite : step.isFinite = true)
    (hpos : 0.0 < step) :
    (nanosecondsOf? step).isSome = true ↔ step < 18446744073709551616.0 := by
  have hcanonical := isCanonical_mantissa step
  have hbound : measure 18446744073709551616.0 = (size (2 ^ 64) 0 : ℕ) := by decide +kernel
  have hnumber : IsNumber 18446744073709551616.0 := isNumber_of_finite (by decide)
  have hlt : step < 18446744073709551616.0 ↔
      size (mantissa step) (exponent step) < size (2 ^ 64) 0 := by
    rw [lt_iff, measure_eq_size hfinite (Binary64.le_of_lt hpos), hbound, Nat.cast_lt]
    exact ⟨fun h => h.2.2, fun h => ⟨isNumber_of_finite hfinite, hnumber, h⟩⟩
  rw [hlt, ← nanoseconds_lt_iff hcanonical.1 hcanonical.2.1, nanosecondsOf?,
    decode_of_isFinite hfinite, signOf_of_pos hpos]
  simp only [isMinus, Bool.false_and, Bool.false_or]
  rw [← not_le]
  split_ifs with hlong
  · exact ⟨fun h => absurd h Bool.false_ne_true, fun h => absurd (of_decide_eq_true hlong) h⟩
  · exact ⟨fun _ h => hlong (decide_eq_true h), fun _ => rfl⟩

/-! ## The clock -/

namespace Clock

/-- Whether an interval moves the clock from every time before the end of the plan. -/
def IsMovedBy (c : Clock) (nanoseconds : Nat) : Prop :=
  ∀ time, 0.0 ≤ time → time < c.total → time < time + c.passing nanoseconds

variable {c : Clock} {n : Nat}

theorem IsSound.passing_nonneg (h : c.IsSound) (n : Nat) : 0.0 ≤ c.passing n := by
  obtain ⟨hfinite, hpos⟩ := Bool.and_eq_true_iff.mp h.speed
  exact Binary64.mul_nonneg hfinite (of_decide_eq_true hpos) (secondsOf_nonneg n)

/-- An interval moves the clock if it is not too small a part of the plan. -/
theorem IsSound.isMovedBy_of_le (h : c.IsSound) (hle : c.total ≤ c.passing n * 9007199254740992.0) :
    c.IsMovedBy n := fun _ hnonneg hlt =>
  lt_add_of_lt h.finite hnonneg hlt (h.passing_nonneg n) hle

/-- A clock that is still playing after an interval has not come to the end. -/
theorem advance_of_still_playing (hplaying : c.state = .playing)
    (hstill : (c.advance n).1.state = .playing) :
    ¬c.total ≤ c.time + c.passing n ∧
      (c.advance n).1 = { c with time := c.time + c.passing n } := by
  rw [advance_eq hplaying] at hstill ⊢
  split_ifs at hstill ⊢ with hend
  · cases hbehavior : c.endBehavior <;> rw [hbehavior] at hstill <;> cases hstill
  · exact ⟨hend, rfl⟩

end Clock

/-! ## The simulation -/

namespace Player

variable {p : Player} {n : Nat}

/-- A moment of a simulation that goes on. -/
theorem clock_of_still_playing {next : Player} {notices : List Notice}
    (hadvance : p.advance n = (next, notices)) (hplaying : p.clock.state = .playing)
    (hstill : next.clock.state = .playing) :
    ¬p.clock.total ≤ p.clock.time + p.clock.passing n ∧
      next.clock = { p.clock with time := p.clock.time + p.clock.passing n } := by
  have hclock : next.clock = (p.clock.advance n).1 :=
    (congrArg (fun result => result.1.clock) hadvance).symm
  rw [hclock] at hstill ⊢
  exact Clock.advance_of_still_playing hplaying hstill

/-- If an interval moves the clock, the bits of its time grow until the end. -/
theorem isSome_playOut? (hsound : p.clock.IsSound) (hkey : 0 ≤ orderKey p.clock.time)
    (hmoved : p.clock.IsMovedBy n) (past : List Moment) : (p.playOut? n past).isSome = true := by
  have hstep : ∀ (p next : Player) (notices : List Notice), p.clock.IsSound →
      0 ≤ orderKey p.clock.time → p.clock.IsMovedBy n → p.advance n = (next, notices) →
      p.clock.state = .playing → next.clock.state = .playing →
        p.clock.time.toBits < next.clock.time.toBits ∧ next.clock.IsSound ∧
          0 ≤ orderKey next.clock.time ∧ next.clock.IsMovedBy n := by
    intro p next notices hsound hkey hmoved hadvance hplaying hstill
    obtain ⟨hnot_end, hclock⟩ := clock_of_still_playing hadvance hplaying hstill
    have hlater : p.clock.time ≤ p.clock.time + p.clock.passing n :=
      le_add_of_nonneg hsound.time_finite (hsound.passing_nonneg n)
    have hbefore : p.clock.time + p.clock.passing n < p.clock.total :=
      (Binary64.not_le (isNumber_of_finite hsound.finite) (le_iff.mp hlater).2.1).mp hnot_end
    have hlt := hmoved _ hsound.nonneg (Binary64.lt_of_le_of_lt hlater hbefore)
    obtain ⟨hbits, hkey'⟩ := toBits_lt_of_lt hkey hlt
    rw [hclock]
    refine ⟨hbits, hsound.of_time rfl rfl ?_ ?_, hkey', hmoved⟩
    · exact Binary64.le_trans hsound.nonneg hlater
    · exact Binary64.le_of_lt hbefore
  fun_induction playOut? n p past with
  | case1 => rfl
  | case2 => rfl
  | case3 p past hplaying next notices hadvance past' hstill hlater ih =>
    obtain ⟨-, hsound', hkey', hmoved'⟩ := hstep p next notices hsound hkey hmoved hadvance
      (not_not.mp hplaying) (not_not.mp hstill)
    exact ih hsound' hkey' hmoved'
  | case4 p past hplaying next notices hadvance hstill hlater =>
    exact absurd (hstep p next notices hsound hkey hmoved hadvance (not_not.mp hplaying)
      (not_not.mp hstill)).1 hlater

/-- The simulation after some intervals. -/
def afterSteps (p : Player) (nanoseconds : Nat) (count : Nat) : Player :=
  p.run (List.replicate count (.advance nanoseconds))

theorem exists_ended_of_playOut? {past : List Moment} (h : (p.playOut? n past).isSome = true) :
    ∃ count, (p.afterSteps n count).clock.state ≠ .playing := by
  fun_induction playOut? n p past with
  | case1 p past hended => exact ⟨0, hended⟩
  | case2 p past hplaying next notices hadvance past' hended =>
    refine ⟨1, ?_⟩
    change (p.advance n).1.clock.state ≠ .playing
    rwa [hadvance]
  | case3 p past hplaying next notices hadvance past' hstill hlater ih =>
    obtain ⟨count, hended⟩ := ih h
    refine ⟨count + 1, ?_⟩
    change ((p.advance n).1.afterSteps n count).clock.state ≠ .playing
    rwa [hadvance]
  | case4 => cases h

/-- A clock does not get beyond a time that it cannot leave. -/
theorem playing_of_stuck {time : Float} (hlt : time < p.clock.total)
    (hstuck : time + p.clock.passing n ≤ time) (hfinite : (p.clock.passing n).isFinite = true)
    (hplaying : p.clock.state = .playing) (hle : p.clock.time ≤ time) (count : Nat) :
    (p.afterSteps n count).clock.state = .playing := by
  induction count generalizing p with
  | zero => exact hplaying
  | succ count ih =>
    have hnext : p.clock.time + p.clock.passing n ≤ time :=
      Binary64.le_trans (Binary64.add_le_add_right hfinite hle) hstuck
    have hnot_end : ¬p.clock.total ≤ p.clock.time + p.clock.passing n := fun hend =>
      (Binary64.not_le (lt_iff.mp hlt).2.1 (lt_iff.mp hlt).1).mpr hlt (Binary64.le_trans hend hnext)
    have hclock : (p.advance n).1.clock =
        { p.clock with time := p.clock.time + p.clock.passing n } := by
      change (p.clock.advance n).1 = _
      rw [Clock.advance_eq hplaying, if_neg hnot_end]
    change ((p.advance n).1.afterSteps n count).clock.state = .playing
    exact ih (by rw [hclock]; exact hlt) (by rw [hclock]; exact hstuck)
      (by rw [hclock]; exact hfinite) (by rw [hclock]; exact hplaying) (by rw [hclock]; exact hnext)

/-- A simulation that begins at zero only ends if no time before the end is stuck. -/
theorem isMovedBy_of_ended (hsound : p.clock.IsSound) (hplaying : p.clock.state = .playing)
    (hzero : p.clock.time = 0.0)
    (hended : ∃ count, (p.afterSteps n count).clock.state ≠ .playing) : p.clock.IsMovedBy n := by
  obtain ⟨count, hended⟩ := hended
  intro time hnonneg hlt
  by_contra hstuck
  have hfinite : time.isFinite = true :=
    isFinite_of_between (by decide) hsound.finite hnonneg (Binary64.le_of_lt hlt)
  have hpassing := hsound.passing_nonneg n
  have hpassing_finite : (p.clock.passing n).isFinite = true := by
    by_contra hinfinite
    exact hstuck (lt_add_of_infinite hfinite hpassing (Bool.eq_false_iff.mpr hinfinite))
  have hback : time + p.clock.passing n ≤ time :=
    (Binary64.not_lt (isNumber_of_finite hfinite)
      (le_iff.mp (le_add_of_nonneg hfinite hpassing)).2.1).mp hstuck
  exact hended (playing_of_stuck hlt hback hpassing_finite hplaying (hzero ▸ hnonneg) count)

/-- A plan that has just been loaded starts to play at zero. -/
theorem clock_play_load (p : Player) (plan : Plan) (context : Context) :
    ((p.load plan context).1.perform .play).clock =
      { (p.load plan context).1.clock with time := 0.0, state := .playing } := by
  have hatPlay : (p.load plan context).1.atPlay = (p.load plan context).1 := by
    unfold atPlay
    split
    · exact reset_load p plan context
    · rfl
  have hplan : (p.load plan context).1.plan.isNone = false := rfl
  rw [perform_play hplan, hatPlay]
  change (p.clock.load plan.totalDuration).1.play.1 =
    { (p.clock.load plan.totalDuration).1 with time := 0.0, state := .playing }
  rw [Clock.load_eq]
  rfl

end Player

/-- **When a simulation ends.**  The speed of the settings and the step are positive and finite.  The
step is an interval exactly if it is shorter than `2 ^ 64` seconds.  The simulation of a session in
such intervals comes to a moment at which the clock no longer runs exactly if an interval moves the
clock from every time before the end of the plan, and `playOut?` returns its moments exactly in this
case.  An interval does so if the plan is not more than `2 ^ 53` times as long as what passes of
it. -/
theorem Session.simulation_ends_iff {settings : Settings} {step : Float}
    (hspeed : Clock.isSpeed settings.playback.speed = true) (hfinite : step.isFinite = true)
    (hpos : 0.0 < step) {domainText problemText transcript : String} {session : Session}
    (hsession : (ofTexts domainText problemText transcript settings).outcome.1 = .ok session) :
    ((nanosecondsOf? step).isSome = true ↔ step < 18446744073709551616.0) ∧
      ∀ interval ∈ nanosecondsOf? step,
        let first := session.player.perform .play
        (((first.playOut? interval []).isSome = true ↔
            ∃ count, (first.afterSteps interval count).clock.state ≠ .playing) ∧
          ((∃ count, (first.afterSteps interval count).clock.state ≠ .playing) ↔
            session.player.clock.IsMovedBy interval) ∧
          (session.player.clock.total ≤
              session.player.clock.passing interval * 9007199254740992.0 →
            session.player.clock.IsMovedBy interval)) := by
  refine ⟨isSome_nanosecondsOf?_iff hfinite hpos, ?_⟩
  intro interval _ first
  obtain ⟨plan, context, hplayer⟩ := exists_load hsession
  have hsound : session.player.clock.IsSound := by
    rw [hplayer]
    exact Clock.isSound_load (c := Clock.ofSettings settings.playback) hspeed plan.totalDuration
  have hfirst : first.clock =
      { session.player.clock with time := 0.0, state := .playing } := by
    unfold first
    rw [hplayer]
    exact Player.clock_play_load _ plan context
  have hsound_first : first.clock.IsSound := by
    rw [hfirst]
    exact hsound.of_time rfl rfl (by decide : (0.0 : Float) ≤ 0.0) hsound.total_nonneg
  have hzero : first.clock.time = 0.0 := by rw [hfirst]
  have hplaying : first.clock.state = .playing := by rw [hfirst]
  have hkey : 0 ≤ orderKey first.clock.time := by
    rw [hzero]
    exact (by decide : 0 ≤ orderKey 0.0)
  have hsame : first.clock.IsMovedBy interval ↔ session.player.clock.IsMovedBy interval := by
    rw [hfirst]
    rfl
  have hreturns : first.clock.IsMovedBy interval → (first.playOut? interval []).isSome = true :=
    fun hmoved => Player.isSome_playOut? hsound_first hkey hmoved []
  have hends (h : (first.playOut? interval []).isSome = true) :
      ∃ count, (first.afterSteps interval count).clock.state ≠ .playing :=
    Player.exists_ended_of_playOut? h
  have hmoved (h : ∃ count, (first.afterSteps interval count).clock.state ≠ .playing) :
      first.clock.IsMovedBy interval :=
    Player.isMovedBy_of_ended hsound_first hplaying hzero h
  exact ⟨⟨hends, fun h => hreturns (hmoved h)⟩,
    ⟨fun h => hsame.mp (hmoved h), fun h => hends (hreturns (hsame.mpr h))⟩,
    hsound.isMovedBy_of_le⟩

/-- The texts of a session whose plan is a voyage of one second. -/
def voyage : Attempt Session :=
  Session.ofTexts "(define (domain sea))" "(define (problem trip) (:domain sea))" "0: (sail)" {}

/-- In steps of a quarter of a second, the voyage ends. -/
theorem voyage_ends :
    (Clock.isSpeed ({} : Settings).playback.speed = true ∧ (0.25 : Float).isFinite = true ∧
        (0.0 : Float) < 0.25) ∧
      nanosecondsOf? 0.25 = some 250000000 ∧
      ∃ session, voyage.outcome.1 = .ok session ∧
        ∃ count, ((session.player.perform .play).afterSteps 250000000 count).clock.state ≠
          .playing := by
  have hspeed : Clock.isSpeed ({} : Settings).playback.speed = true := by decide
  have hfinite : (0.25 : Float).isFinite = true := by decide
  have hpos : (0.0 : Float) < 0.25 := by decide
  have hinterval : nanosecondsOf? 0.25 = some 250000000 := by decide +kernel
  have hshort : voyage.outcome.1.toOption.any (fun session =>
      decide (session.player.clock.total ≤
        session.player.clock.passing 250000000 * 9007199254740992.0)) = true := by decide +kernel
  refine ⟨⟨hspeed, hfinite, hpos⟩, hinterval, ?_⟩
  cases hsession : voyage.outcome.1 with
  | error fault =>
    rw [hsession] at hshort
    cases hshort
  | ok session =>
    rw [hsession] at hshort
    obtain ⟨-, hsteps⟩ := Session.simulation_ends_iff hspeed hfinite hpos hsession
    obtain ⟨-, hends, hmoved⟩ := hsteps 250000000 hinterval
    exact ⟨session, rfl, hends.mpr (hmoved (of_decide_eq_true hshort))⟩

/-- A step of `1e300` seconds is positive and finite, and no interval. -/
theorem not_simulation_ends :
    ¬∀ (settings : Settings) (step : Float) (domainText problemText transcript : String)
      (session : Session), Clock.isSpeed settings.playback.speed = true → step.isFinite = true →
        0.0 < step →
        (Session.ofTexts domainText problemText transcript settings).outcome.1 = .ok session →
          ∃ interval, nanosecondsOf? step = some interval ∧
            ∃ count, ((session.player.perform .play).afterSteps interval count).clock.state ≠
              .playing := by
  intro h
  have hnone : nanosecondsOf? 1e300 = none := by decide +kernel
  have hread : voyage.outcome.1.toOption.isSome = true := by decide +kernel
  cases hsession : voyage.outcome.1 with
  | error fault =>
    rw [hsession] at hread
    cases hread
  | ok session =>
    obtain ⟨interval, hinterval, -⟩ := h {} 1e300 _ _ _ session (by decide) (by decide +kernel)
      (by decide +kernel) hsession
    rw [hnone] at hinterval
    cases hinterval

end PlanPlayback
