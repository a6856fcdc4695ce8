import Mathlib.Data.List.Induction
import PlanPlayback.Proofs.Binary64.Bits
import PlanPlayback.Proofs.Playback.ClockRange

/-!
# What a tick counts

A tick lets the wall-clock time since the previous tick pass, provided that the clock has been
playing all the while.  The clock remembers the instant of a tick for this purpose, and it has to
forget it on every way out of playing: when it is paused, reset, or given another plan, and when it
comes to the end.  `Clock.LastTickedAt` says from the operations of a run, without what the clock
remembers, at which instant the last tick was since the clock began to play.

## Strategy

* `Clock.lastTick_operate` says for a single operation what a clock remembers afterwards: the instant
  of a tick, or else what it remembered before, and nothing at all unless it is playing;
* `Clock.lastTickedAt_append_singleton` says the same of runs, and hence a clock always remembers the
  last tick (`Clock.lastTick_operateAll`);
* `Clock.sameMove_tick` and `Clock.sameMove_tick_zero`: a tick is an interval that passes;
* `Clock.standsAt_advance_zero`: an empty interval leaves the time where it is, if the speed is
  finite.

At a speed that is not finite an empty interval loses the time, so that it is moved by a tick that
should only remember its instant.  `Clock.ticks_count_playing_time` is the result.
-/

namespace PlanPlayback

open Binary64

namespace Clock

/-! ## The last tick of a run -/

/-- The instant of a tick. -/
def Operation.instant? : Operation → Option Nat
  | .tick now => some now
  | _ => none

theorem Operation.eq_tick {operation : Operation} {instant : Nat}
    (h : operation.instant? = some instant) : operation = .tick instant := by
  cases operation with
  | tick now => exact congrArg Operation.tick (Option.some_inj.mp h)
  | _ => cases h

/-- Whether a clock is playing before, between and after some operations. -/
def PlaysThrough (c : Clock) : List Operation → Prop
  | [] => c.state = .playing
  | operation :: rest => c.state = .playing ∧ (c.operate operation).PlaysThrough rest

/-- Whether the last tick of a run was at an instant, and the clock has been playing without
interruption since then. -/
def LastTickedAt (c : Clock) (operations : List Operation) (instant : Nat) : Prop :=
  ∃ before after, operations = before ++ .tick instant :: after ∧
    (∀ operation ∈ after, operation.instant? = none) ∧
      (c.operateAll before).PlaysThrough (.tick instant :: after)

theorem operateAll_append_singleton (c : Clock) (operations : List Operation)
    (operation : Operation) :
    c.operateAll (operations ++ [operation]) = (c.operateAll operations).operate operation := by
  simp [operateAll]

theorem playsThrough_append_singleton {c : Clock} {operations : List Operation}
    {operation : Operation} :
    c.PlaysThrough (operations ++ [operation]) ↔
      c.PlaysThrough operations ∧ (c.operateAll (operations ++ [operation])).state = .playing := by
  induction operations generalizing c with
  | nil => exact Iff.rfl
  | cons first rest ih =>
    rw [List.cons_append, PlaysThrough, PlaysThrough, ih, and_assoc]
    exact Iff.rfl

/-- Only a clock that is playing plays after a tick. -/
theorem state_of_tick {c : Clock} {now : Nat} (h : (c.tick now).1.state = .playing) :
    c.state = .playing := by
  by_contra hstate
  rw [tick_of_ne hstate] at h
  exact hstate h

/-- How a run has to end for its last tick to be at an instant. -/
theorem lastTickedAt_append_singleton {c : Clock} {operations : List Operation}
    {operation : Operation} {instant : Nat} :
    c.LastTickedAt (operations ++ [operation]) instant ↔
      (c.operateAll (operations ++ [operation])).state = .playing ∧
        (operation.instant? = some instant ∨
          operation.instant? = none ∧ c.LastTickedAt operations instant) := by
  constructor
  · rintro ⟨before, after, hsplit, hafter, hplays⟩
    induction after using List.reverseRecOn with
    | nil =>
      obtain ⟨rfl, hlast⟩ := List.append_inj' hsplit rfl
      obtain rfl := List.singleton_inj.mp hlast
      rw [operateAll_append_singleton]
      exact ⟨hplays.2, .inl rfl⟩
    | append_singleton middle last _ =>
      rw [← List.cons_append, ← List.append_assoc] at hsplit
      obtain ⟨rfl, hlast⟩ := List.append_inj' hsplit rfl
      obtain rfl := List.singleton_inj.mp hlast
      rw [← List.cons_append, playsThrough_append_singleton] at hplays
      refine ⟨?_, .inr ⟨hafter operation (by simp), before, middle, rfl, ?_, hplays.1⟩⟩
      · simpa [operateAll] using hplays.2
      · intro other hother
        exact hafter other (by simp [hother])
  · rintro ⟨hplaying, htick | ⟨hquiet, before, after, rfl, hafter, hplays⟩⟩
    · obtain rfl := Operation.eq_tick htick
      rw [operateAll_append_singleton] at hplaying
      exact ⟨operations, [], rfl, by simp, state_of_tick hplaying, hplaying⟩
    · refine ⟨before, after ++ [operation], by simp, ?_, ?_⟩
      · intro other hother
        rcases List.mem_append.mp hother with hother | hother
        · exact hafter other hother
        · rwa [List.mem_singleton.mp hother]
      · rw [← List.cons_append, playsThrough_append_singleton]
        exact ⟨hplays, by simpa [operateAll] using hplaying⟩

/-! ## What a clock remembers -/

/-- A clock that is not playing remembers no tick. -/
def RemembersPlaying (c : Clock) : Prop :=
  c.state ≠ .playing → c.lastTick = none

theorem lastTick_advance {c : Clock} (hplaying : c.state = .playing) (nanoseconds : Nat) :
    (c.advance nanoseconds).1.lastTick =
      if (c.advance nanoseconds).1.state = .playing then c.lastTick else none := by
  rw [advance_eq hplaying]
  by_cases hover : c.total ≤ c.time + c.passing nanoseconds
  · cases hend : c.endBehavior <;> simp [hover, EndBehavior.state]
  · simp [hover, hplaying]

/-- **What a clock remembers after an operation**: the instant of a tick, or else what it remembered
before, as long as it is playing. -/
theorem lastTick_operate {c : Clock} (h : c.RemembersPlaying) (operation : Operation) :
    (c.operate operation).lastTick =
      if (c.operate operation).state = .playing then operation.instant?.or c.lastTick else none := by
  have hkept : c.lastTick = if c.state = .playing then c.lastTick else none := by
    split_ifs with hplaying
    · rfl
    · exact h hplaying
  cases operation with
  | load total => simp [operate, load_eq]
  | unload => simp [operate, unload, reset_eq]
  | reset => simp [operate, reset_eq]
  | play =>
    rw [operate, play_eq]
    cases c.loaded with
    | true => rfl
    | false => exact hkept
  | pause =>
    rw [operate, pause_eq]
    by_cases hplaying : c.state = .playing
    · rw [if_pos hplaying]
      rfl
    · rw [if_neg hplaying]
      exact hkept
  | seek time => exact hkept
  | setSpeed speed =>
    rw [operate, setSpeed_eq]
    exact hkept
  | setEndBehavior endBehavior => exact hkept
  | advance nanoseconds =>
    by_cases hplaying : c.state = .playing
    · exact lastTick_advance hplaying nanoseconds
    · rw [operate, advance_of_ne hplaying]
      exact hkept
  | tick now =>
    by_cases hplaying : c.state = .playing
    · rw [operate, tick_eq hplaying]
      exact lastTick_advance (c := { c with lastTick := some now }) hplaying _
    · rw [operate, tick_of_ne hplaying, if_neg hplaying]

/-- **A clock remembers the last tick** of the time that it has been playing without interruption. -/
theorem lastTick_operateAll {c : Clock} (h : c.lastTick = none) (operations : List Operation) :
    (c.operateAll operations).RemembersPlaying ∧
      ∀ instant, (c.operateAll operations).lastTick = some instant ↔
        c.LastTickedAt operations instant := by
  induction operations using List.reverseRecOn with
  | nil =>
    refine ⟨fun _ => h, fun instant => ?_⟩
    constructor
    · intro hsome
      cases h.symm.trans hsome
    · rintro ⟨before, after, hsplit, -⟩
      simp at hsplit
  | append_singleton operations operation ih =>
    obtain ⟨hremembers, hlast⟩ := ih
    have hnext := lastTick_operate hremembers operation
    rw [← operateAll_append_singleton] at hnext
    refine ⟨?_, fun instant => ?_⟩
    · intro hstate
      rw [hnext, if_neg hstate]
    · rw [lastTickedAt_append_singleton, hnext]
      by_cases hplaying : (c.operateAll (operations ++ [operation])).state = .playing
      · simp [hplaying, hlast]
      · simp [hplaying]

/-! ## A tick is an interval that passes -/

/-- A clock apart from what it remembers. -/
def withoutTick (c : Clock) : Clock :=
  { c with lastTick := none }

/-- Whether two moves of a clock are the same, apart from what the clock remembers. -/
def SameMove (first second : Clock × List Transition) : Prop :=
  first.1.withoutTick = second.1.withoutTick ∧ first.2 = second.2

theorem SameMove.time_eq {first second : Clock × List Transition} (h : SameMove first second) :
    first.1.time = second.1.time := by
  have htime := congrArg Clock.time h.1
  exact htime

theorem sameMove_advance (c : Clock) (remembered : Option Nat) (nanoseconds : Nat) :
    SameMove (advance { c with lastTick := remembered } nanoseconds) (c.advance nanoseconds) := by
  unfold advance
  by_cases hplaying : c.state = .playing
  · simp only [hplaying, ne_eq, not_true_eq_false, if_false]
    split_ifs with hover
    · exact ⟨rfl, rfl⟩
    · exact ⟨rfl, rfl⟩
  · simp only [ne_eq, hplaying, not_false_eq_true, if_true]
    exact ⟨rfl, rfl⟩

/-- A tick counts from the instant that the clock remembers. -/
theorem sameMove_tick (c : Clock) (now : Nat) :
    SameMove (c.tick now) (c.advance (c.lastTick.elim 0 fun previous => now - previous)) := by
  by_cases hplaying : c.state = .playing
  · rw [tick_eq hplaying]
    exact c.sameMove_advance (some now) _
  · unfold tick
    rw [if_pos hplaying, advance_of_ne hplaying]
    exact ⟨rfl, rfl⟩

/-! ## Empty intervals -/

/-- A clock at a finite speed that has not gone beyond the end of its plan. -/
structure IsBounded (c : Clock) : Prop where
  total_nonneg : 0.0 ≤ c.total
  time_le : IsNumber c.time → c.time ≤ c.total
  speed : c.speed.isFinite = true

namespace IsBounded

variable {c : Clock}

/-- What the operations have to keep: the length of the plan and the speed. -/
theorem of_time {c' : Clock} (h : c.IsBounded) (htotal : c'.total = c.total)
    (hspeed : c'.speed = c.speed) (hle : IsNumber c'.time → c'.time ≤ c.total) : c'.IsBounded :=
  ⟨htotal ▸ h.total_nonneg, htotal ▸ hle, hspeed ▸ h.speed⟩

theorem seek (h : c.IsBounded) (time : Float) : (c.seek time).IsBounded := by
  refine h.of_time rfl rfl ?_
  have htotal : IsNumber c.total := (le_iff.mp h.total_nonneg).2.1
  -- a jump is cut off at the end, whatever becomes of its target before
  obtain ⟨raised, htime⟩ :
      ∃ raised, (c.seek time).time = if c.total < raised then c.total else raised := ⟨_, rfl⟩
  rw [htime]
  split_ifs with hbeyond
  · exact fun _ => Binary64.le_refl htotal
  · exact fun hnumber => (Binary64.not_lt htotal hnumber).mp hbeyond

theorem advance (h : c.IsBounded) (nanoseconds : Nat) : (c.advance nanoseconds).1.IsBounded := by
  have htotal : IsNumber c.total := (le_iff.mp h.total_nonneg).2.1
  by_cases hplaying : c.state = .playing
  · rw [advance_eq hplaying]
    split_ifs with hover
    · exact h.of_time rfl rfl fun _ => Binary64.le_refl htotal
    · refine h.of_time rfl rfl fun hnumber => ?_
      exact Binary64.le_of_lt ((Binary64.not_le htotal hnumber).mp hover)
  · rw [advance_of_ne hplaying]
    exact h

theorem operate (h : c.IsBounded) (operation : Operation) : (c.operate operation).IsBounded := by
  have hzero : (0.0 : Float) ≤ 0.0 := by decide
  cases operation with
  | load total =>
    rw [Clock.operate, load_eq]
    exact ⟨(lengthOf_spec total).2, fun _ => (lengthOf_spec total).2, h.speed⟩
  | unload =>
    rw [Clock.operate, unload, reset_eq]
    exact ⟨hzero, fun _ => hzero, h.speed⟩
  | reset =>
    rw [Clock.operate, reset_eq]
    exact h.of_time rfl rfl fun _ => h.total_nonneg
  | play =>
    rw [Clock.operate, play_eq]
    split_ifs
    · exact h.of_time rfl rfl h.time_le
    · exact h
  | pause =>
    rw [Clock.operate, pause_eq]
    split_ifs
    · exact h.of_time rfl rfl h.time_le
    · exact h
  | seek time => exact h.seek time
  | setSpeed speed =>
    rw [Clock.operate, setSpeed_eq]
    refine ⟨h.total_nonneg, h.time_le, ?_⟩
    split_ifs with hspeed
    · exact (Bool.and_eq_true_iff.mp hspeed).1
    · exact h.speed
  | setEndBehavior endBehavior => exact h.of_time rfl rfl h.time_le
  | advance nanoseconds => exact h.advance nanoseconds
  | tick now =>
    have hwith : ∀ lastTick, ({ c with lastTick } : Clock).IsBounded := fun lastTick =>
      h.of_time rfl rfl h.time_le
    by_cases hplaying : c.state = .playing
    · rw [Clock.operate, tick_eq hplaying]
      exact (hwith (some now)).advance _
    · rw [Clock.operate, tick_of_ne hplaying]
      exact hwith none

theorem operateAll (h : c.IsBounded) (operations : List Operation) :
    (c.operateAll operations).IsBounded :=
  List.foldlRecOn operations _ h fun _ hc operation _ => hc.operate operation

end IsBounded

/-- Whether a clock shows a time.  The two zeros are one time, and what is no number is the same as
itself. -/
def StandsAt (c : Clock) (time : Float) : Prop :=
  c.time = time ∨ (c.time == time) = true

/-- **An empty interval moves nothing** at a finite speed. -/
theorem standsAt_advance_zero {c : Clock} (h : c.IsBounded) : (c.advance 0).1.StandsAt c.time := by
  have hseconds : parts (secondsOf 0) = .zero .positive := by rfl
  obtain ⟨hfinite, hzero⟩ := zero_mul_of_isFinite hseconds h.speed
  by_cases hplaying : c.state = .playing
  swap
  · rw [advance_of_ne hplaying]
    exact .inl rfl
  rw [advance_eq hplaying]
  by_cases hnumber : IsNumber c.time
  · obtain ⟨hsum, hsame⟩ := measure_add_of_measure_eq_zero hnumber hfinite hzero
    split_ifs with hover
    · -- the clock was at the end before
      have hle := h.time_le hnumber
      have hback := (le_iff.mp hover).2.2
      refine .inr (beq_iff.mpr ⟨(le_iff.mp hle).2.1, hnumber, ?_⟩)
      exact le_antisymm (hback.trans hsame.le) (le_iff.mp hle).2.2
    · exact .inr (beq_iff.mpr ⟨hsum, hnumber, hsame⟩)
  · have hlost : ¬IsNumber (c.time + c.passing 0) := fun hsum => hnumber (isNumber_of_add_left hsum)
    rw [if_neg fun hover => hlost (le_iff.mp hover).2.1]
    exact .inl (parts_inj ((not_not.mp hlost).trans (not_not.mp hnumber).symm))

/-! ## The result -/

theorem isBounded_ofSettings {settings : PlaybackSettings}
    (hspeed : settings.speed.isFinite = true) : (ofSettings settings).IsBounded := by
  have hzero : (0.0 : Float) ≤ 0.0 := by decide
  exact ⟨hzero, fun _ => hzero, hspeed⟩

/-- **A tick counts the time since the last tick, if the clock has been playing since then, and
nothing otherwise.**  After any operations, a tick at an instant moves the clock exactly as the
interval since the last tick does, if the clock has not ceased to play in between, and it does not
move a clock that is not playing.  A tick that finds no such tick before it, since the clock has
begun to play after the last one, leaves the time where it is, if and only if the speed that the
settings ask for is finite. -/
theorem ticks_count_playing_time (settings : PlaybackSettings) :
    let clockAfter (operations : List Operation) := (ofSettings settings).operateAll operations
    (∀ operations m n, (ofSettings settings).LastTickedAt operations m →
        SameMove ((clockAfter operations).tick n) ((clockAfter operations).advance (n - m))) ∧
      (∀ operations n, (clockAfter operations).state ≠ .playing →
        ((clockAfter operations).tick n).1.time = (clockAfter operations).time) ∧
      ((∀ operations n, (∀ m, ¬(ofSettings settings).LastTickedAt operations m) →
          ((clockAfter operations).tick n).1.StandsAt (clockAfter operations).time) ↔
        settings.speed.isFinite = true) := by
  intro clockAfter
  have hremembered : ∀ operations m, (clockAfter operations).lastTick = some m ↔
      (ofSettings settings).LastTickedAt operations m :=
    fun operations => (lastTick_operateAll rfl operations).2
  refine ⟨?_, ?_, ?_, ?_⟩
  · intro operations m n hticked
    have hmove := (clockAfter operations).sameMove_tick n
    rwa [(hremembered operations m).mpr hticked] at hmove
  · intro operations n hstate
    rw [tick_of_ne hstate]
  · intro hstands
    by_contra hinfinite
    have hstart : clockAfter [.load 0.0, .play] = _ := operateAll_load_play settings 0.0
    have hlost : ¬IsNumber ((clockAfter [.load 0.0, .play]).tick 0).1.time :=
      not_isNumber_time_tick (Bool.eq_false_iff.mpr hinfinite) 0.0 0
    have htick : ((clockAfter [.load 0.0, .play]).tick 0).1.StandsAt 0.0 := by
      have hunticked : ∀ m, ¬(ofSettings settings).LastTickedAt [.load 0.0, .play] m := by
        intro m hticked
        rw [← hremembered, hstart] at hticked
        cases hticked
      have htick := hstands [.load 0.0, .play] 0 hunticked
      rwa [hstart] at htick ⊢
    rcases htick with hsame | hsame
    · rw [hsame] at hlost
      exact hlost isNumber_zero
    · exact hlost (beq_iff.mp hsame).1
  · intro hspeed operations n hunticked
    have hnone : (clockAfter operations).lastTick = none :=
      Option.eq_none_iff_forall_ne_some.mpr fun m hticked =>
        hunticked m ((hremembered operations m).mp hticked)
    have hmove := (clockAfter operations).sameMove_tick n
    rw [hnone] at hmove
    have htime : _ = ((clockAfter operations).advance 0).1.time := hmove.time_eq
    have hstands := standsAt_advance_zero ((isBounded_ofSettings hspeed).operateAll operations)
    rwa [StandsAt, ← htime] at hstands

/-- A clock that is ticked, and moved while it is playing. -/
def tickedAndMoved : List Operation :=
  [.load 10.0, .play, .tick 5000000000, .seek 3.0]

/-- Two seconds after a tick the clock has moved by two seconds, and a minute after it, with a pause
in between, it has not moved. -/
theorem ticks_around_pause :
    (ofSettings {}).LastTickedAt tickedAndMoved 5000000000 ∧
      (((ofSettings {}).operateAll tickedAndMoved).tick 7000000000).1.time = 5.0 ∧
      (∀ m, ¬(ofSettings {}).LastTickedAt (tickedAndMoved ++ [.pause, .play]) m) ∧
      (((ofSettings {}).operateAll (tickedAndMoved ++ [.pause, .play])).tick
        65000000000).1.StandsAt 3.0 := by
  obtain ⟨hcounts, -, hstands⟩ := ticks_count_playing_time {}
  have hticked : (ofSettings {}).LastTickedAt tickedAndMoved 5000000000 := by
    refine ⟨[.load 10.0, .play], [.seek 3.0], rfl, by simp [Operation.instant?], ?_⟩
    simp only [PlaysThrough]
    decide +kernel
  have hunticked : ∀ m, ¬(ofSettings {}).LastTickedAt (tickedAndMoved ++ [.pause, .play]) m := by
    intro m hticked
    have hnone : ((ofSettings {}).operateAll (tickedAndMoved ++ [.pause, .play])).lastTick = none := by
      decide +kernel
    rw [← (lastTick_operateAll rfl _).2 m, hnone] at hticked
    cases hticked
  refine ⟨hticked, ?_, hunticked, ?_⟩
  · rw [(hcounts tickedAndMoved 5000000000 7000000000 hticked).time_eq]
    decide +kernel
  · have htime : ((ofSettings {}).operateAll (tickedAndMoved ++ [.pause, .play])).time = 3.0 := by
      decide +kernel
    rw [← htime]
    exact hstands.mpr (by decide) _ 65000000000 hunticked

/-- At an infinite speed, which a document may ask for, the first tick after the clock has begun to
play moves it. -/
theorem not_ticks_count_playing_time :
    ¬∀ text settings, Toml.settings text = .ok settings → settings.fault?.isNone →
      ∀ operations n, (∀ m, ¬(ofSettings settings.playback).LastTickedAt operations m) →
        (((ofSettings settings.playback).operateAll operations).tick n).1.StandsAt
          ((ofSettings settings.playback).operateAll operations).time := by
  intro h
  obtain ⟨settings, hread, hvalid, hinfinite⟩ := exists_settings_of_infinite_speed
  have hstart := operateAll_load_play settings.playback 10.0
  have hunticked : ∀ m, ¬(ofSettings settings.playback).LastTickedAt [.load 10.0, .play] m := by
    intro m hticked
    rw [← (lastTick_operateAll rfl _).2 m, hstart] at hticked
    cases hticked
  have hlost : ¬IsNumber (((ofSettings settings.playback).operateAll [.load 10.0, .play]).tick
      0).1.time :=
    not_isNumber_time_tick hinfinite 10.0 0
  have hstands := h _ settings hread hvalid _ 0 hunticked
  rw [hstart] at hstands hlost
  rcases hstands with hsame | hsame
  · rw [hsame] at hlost
    exact hlost isNumber_zero
  · exact hlost (beq_iff.mp hsame).1

end Clock

end PlanPlayback
