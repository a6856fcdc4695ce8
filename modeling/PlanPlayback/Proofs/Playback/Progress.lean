import PlanPlayback.Proofs.Binary64.Order
import PlanPlayback.Proofs.Playback.Visit

/-!
# Where an event stands

An event that is over at a time is over at every later time.  So what visits have made of an event
is determined by their times: an event that was over at one of them is completed, and any other
event stands where the last visit has left it.

* `Event.isOverAt_mono`: the progress of an event is monotone in time, rounding included;
* `Event.settledBy` is the event after visits at some times, the last visit first;
* `Event.advanced_settledBy` and `Event.advanced_forget_settledBy`: an update that does not go back,
  and a jump to any time, add a visit.
-/

namespace PlanPlayback

open Binary64

namespace Event

/-! ## Progress is monotone -/

theorem one_le_unitClamp {x : Float} : 1.0 ≤ unitClamp x ↔ 1.0 ≤ x := by
  have hone : (1.0 : Float) ≤ 1.0 := by decide
  have hzero : ¬(1.0 : Float) ≤ 0.0 := by decide
  have hzero' : ¬(1.0 : Float) < 0.0 := by decide
  unfold unitClamp
  by_cases hneg : x < 0.0
  · rw [if_pos hneg]
    simp only
    rw [if_neg hzero']
    exact ⟨fun h => absurd h hzero, fun h => absurd (Binary64.lt_of_le_of_lt h hneg) hzero'⟩
  · rw [if_neg hneg]
    simp only
    split_ifs with habove
    · exact ⟨fun _ => Binary64.le_of_lt habove, fun _ => hone⟩
    · exact Iff.rfl

/-- An event has passed at its end, or when the part of its duration that has passed is the whole of
it. -/
theorem isPastAt_iff {e : Event} {time : Float} :
    e.isPastAt time = true ↔ e.finish ≤ time ∨
      ¬e.duration ≤ 0.0 ∧ ¬time ≤ e.start ∧ 1.0 ≤ (time - e.start) / e.duration := by
  have hone : (1.0 : Float) ≤ 1.0 := by decide
  have hzero : ¬(1.0 : Float) ≤ 0.0 := by decide
  rw [isPastAt, decide_eq_true_iff, progressAt]
  by_cases hfinish : e.finish ≤ time
  · rw [if_pos hfinish]
    exact ⟨fun _ => Or.inl hfinish, fun _ => hone⟩
  · rw [if_neg hfinish]
    split_ifs with hempty
    · rw [Bool.or_eq_true, decide_eq_true_iff, decide_eq_true_iff] at hempty
      refine ⟨fun h => absurd h hzero, fun h => ?_⟩
      rcases h with h | ⟨hduration, hstart, -⟩
      · exact absurd h hfinish
      · exact absurd hempty (not_or.mpr ⟨hduration, hstart⟩)
    · rw [Bool.or_eq_true, decide_eq_true_iff, decide_eq_true_iff, not_or] at hempty
      rw [one_le_unitClamp]
      exact ⟨fun h => Or.inr ⟨hempty.1, hempty.2, h⟩, fun h => (h.resolve_left hfinish).2.2⟩

theorem isPastAt_mono {e : Event} {t t' : Float} (ht : t.isFinite = true) (ht' : t'.isFinite = true)
    (h : t ≤ t') (hpast : e.isPastAt t = true) : e.isPastAt t' = true := by
  rw [isPastAt_iff] at hpast ⊢
  rcases hpast with hfinish | ⟨hduration, hstart, hwhole⟩
  · exact Or.inl (Binary64.le_trans hfinish h)
  · right
    -- a part that is as large as the whole is a number, so the times and the duration are
    obtain ⟨hdistance, hnumber⟩ := isNumber_of_div (le_iff.mp hwhole).2.1
    have hstart_number := isNumber_of_sub hdistance
    have hfinite := isFinite_of_one_le_div hwhole
    have hpos : 0.0 < e.duration := (Binary64.not_le hnumber isNumber_zero).mp hduration
    have hstarted := (Binary64.not_le (isNumber_of_finite ht) hstart_number).mp hstart
    refine ⟨hduration, ?_, ?_⟩
    · exact (Binary64.not_le (isNumber_of_finite ht') hstart_number).mpr
        (Binary64.lt_of_lt_of_le hstarted h)
    · have hlater := div_le_div_of_pos hfinite hpos (sub_le_sub_of_finite ht ht' hstart_number h)
      exact Binary64.le_trans hwhole hlater

/-- **An event that is over stays over.** -/
theorem isOverAt_mono {e : Event} {t t' : Float} (ht : t.isFinite = true) (ht' : t'.isFinite = true)
    (h : t ≤ t') (hover : e.isOverAt t = true) : e.isOverAt t' = true := by
  rw [isOverAt, Bool.and_eq_true, Bool.not_eq_true', decide_eq_false_iff_not] at hover ⊢
  exact ⟨fun hlt => hover.1 (Binary64.lt_of_le_of_lt h hlt), isPastAt_mono ht ht' h hover.2⟩

/-- What is over at one of several times is over at the latest of them. -/
theorem any_isOverAt (e : Event) {times : List Float} {latest : Float}
    (hfinite : ∀ time ∈ times, time.isFinite = true) (hlatest : latest ∈ times)
    (hle : ∀ time ∈ times, time ≤ latest) : times.any e.isOverAt = e.isOverAt latest := by
  rw [Bool.eq_iff_iff, List.any_eq_true]
  refine ⟨fun ⟨time, htime, hover⟩ => ?_, fun hover => ⟨latest, hlatest, hover⟩⟩
  exact isOverAt_mono (hfinite time htime) (hfinite latest hlatest) (hle time htime) hover

/-! ## Events after visits -/

/-- An event after visits at some times, the last visit first. -/
def settledBy (e : Event) : List Float → Event
  | [] => e.rewind
  | time :: earlier =>
      if (time :: earlier).any e.isOverAt then { e with status := .completed, progress := 1.0 }
      else if time < e.start then e.rewind
      else { e with status := .started, progress := e.progressAt time }

/-- Events that have not begun are those without a visit. -/
theorem map_settledBy_nil {events : List Event} (hrewind : ∀ e ∈ events, e.rewind = e) :
    events.map (·.settledBy []) = events :=
  (List.map_congr_left hrewind).trans (List.map_id events)

@[simp] theorem rewind_settledBy (e : Event) (past : List Float) :
    (e.settledBy past).rewind = e.rewind := by
  cases past with
  | nil => rfl
  | cons time earlier =>
    rw [settledBy]
    split_ifs <;> rfl

@[simp] theorem start_settledBy (e : Event) (past : List Float) :
    (e.settledBy past).start = e.start := by
  change (e.settledBy past).rewind.start = e.start
  rw [rewind_settledBy]
  rfl

@[simp] theorem progressAt_rewind (e : Event) (time : Float) :
    e.rewind.progressAt time = e.progressAt time :=
  rfl

@[simp] theorem progressAt_settledBy (e : Event) (past : List Float) (time : Float) :
    (e.settledBy past).progressAt time = e.progressAt time := by
  rw [← progressAt_rewind, rewind_settledBy, progressAt_rewind]

@[simp] theorem isCompleted_settledBy (e : Event) (past : List Float) :
    (e.settledBy past).isCompleted = past.any e.isOverAt := by
  cases past with
  | nil => rfl
  | cons time earlier =>
    rw [settledBy]
    split_ifs with hover hwaiting
    · exact hover.symm
    · exact (Bool.eq_false_iff.mpr hover).symm
    · exact (Bool.eq_false_iff.mpr hover).symm

theorem settledBy_of_over {e : Event} {past : List Float} (hover : past.any e.isOverAt = true) :
    e.settledBy past = { e with status := .completed, progress := 1.0 } := by
  cases past with
  | nil => cases hover
  | cons time earlier => exact if_pos hover

/-- An event that was not over at any visit is waiting, or its start had come at the last one. -/
theorem settledBy_of_not_over {e : Event} {past : List Float}
    (hover : past.any e.isOverAt = false) :
    e.settledBy past = e.rewind ∨
      ∃ last ∈ past.head?, ¬last < e.start ∧
        e.settledBy past = { e with status := .started, progress := e.progressAt last } := by
  cases past with
  | nil => exact Or.inl rfl
  | cons last earlier =>
    rw [settledBy, hover]
    by_cases hwaiting : last < e.start
    · exact Or.inl (if_pos hwaiting)
    · exact Or.inr ⟨last, rfl, hwaiting, if_neg hwaiting⟩

/-- What one more visit makes of an event that was not over before. -/
theorem settledBy_cons {e : Event} {past : List Float} (hover : past.any e.isOverAt = false)
    (time : Float) :
    e.settledBy (time :: past) = if time < e.start then e.rewind else e.during time := by
  rw [settledBy, List.any_cons, hover, Bool.or_false, isOverAt, during]
  by_cases hwaiting : time < e.start
  · rw [decide_eq_true hwaiting, Bool.not_true, Bool.false_and, if_neg Bool.false_ne_true]
    rw [if_pos hwaiting, if_pos hwaiting]
  · rw [decide_eq_false hwaiting, Bool.not_false, Bool.true_and]
    rw [if_neg hwaiting, if_neg hwaiting]

theorem during_rewind (e : Event) (time : Float) : e.rewind.during time = e.during time :=
  rfl

theorem advanced_rewind (e : Event) (time : Float) :
    e.rewind.advanced time = if time < e.start then e.rewind else e.during time := by
  have hstatus : e.rewind.status = .pending := rfl
  have hstart : e.rewind.start = e.start := rfl
  rw [advanced, proceedsAt, startsAt, hstatus, hstart, decide_eq_false (by decide),
    decide_eq_true rfl, Bool.false_or, Bool.true_and]
  by_cases hwaiting : time < e.start
  · rw [decide_eq_true hwaiting, Bool.not_true, if_neg Bool.false_ne_true, if_pos hwaiting]
  · rw [decide_eq_false hwaiting, Bool.not_false, if_pos rfl, if_neg hwaiting, during_rewind]

theorem advanced_of_started {e : Event} (h : e.status = .started) (time : Float) :
    e.advanced time = e.during time := by
  rw [advanced, proceedsAt, decide_eq_true h, Bool.true_or, if_pos rfl]

/-- An update that does not go back adds a visit. -/
theorem advanced_settledBy (e : Event) {past : List Float} {time : Float}
    (hlast : ∀ last ∈ past.head?, last ≤ time) :
    (e.settledBy past).advanced time = e.settledBy (time :: past) := by
  cases hover : past.any e.isOverAt with
  | true =>
    have hcompleted : (e.settledBy past).isCompleted = true :=
      (e.isCompleted_settledBy past).trans hover
    have hover' : (time :: past).any e.isOverAt = true := by
      rw [List.any_cons, hover, Bool.or_true]
    rw [advanced_of_isCompleted hcompleted, settledBy_of_over hover, settledBy_of_over hover']
  | false =>
    rw [settledBy_cons hover]
    rcases settledBy_of_not_over hover with hwaiting | ⟨last, hlast', hstarted, hstate⟩
    · rw [hwaiting, advanced_rewind]
    -- the start of a started event still lies in the past
    · have hstill : ¬time < e.start := fun hlt =>
        hstarted (Binary64.lt_of_le_of_lt (hlast last hlast') hlt)
      rw [hstate, if_neg hstill, advanced_of_started rfl]
      rfl

/-- A jump to any time adds a visit. -/
theorem advanced_forget_settledBy (e : Event) (past : List Float) (time : Float) :
    (e.settledBy past).forget.advanced time = e.settledBy (time :: past) := by
  cases hover : past.any e.isOverAt with
  | true =>
    have hcompleted : (e.settledBy past).forget.isCompleted = true :=
      (isCompleted_forget _).trans ((e.isCompleted_settledBy past).trans hover)
    have hover' : (time :: past).any e.isOverAt = true := by
      rw [List.any_cons, hover, Bool.or_true]
    rw [advanced_of_isCompleted hcompleted, settledBy_of_over hover, settledBy_of_over hover']
    rfl
  | false =>
    rw [settledBy_cons hover]
    rcases settledBy_of_not_over hover with hwaiting | ⟨last, -, -, hstate⟩
    · rw [hwaiting]
      exact e.advanced_rewind time
    · rw [hstate]
      exact e.advanced_rewind time

end Event

end PlanPlayback
