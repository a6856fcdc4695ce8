import Mathlib.Data.List.Basic
import PlanPlayback.Playback.Schedule

/-!
# Visits

A visit brings all events of a schedule in line with a time.  What it does to an event does not
depend on the fluents, and what it does to the fluents is to settle the events that it completes, in
the order in which they are registered:

* `Event.advanced` is an event after a step, and `Event.completesAt` says whether the step completes
  it; `Event.step_spec` is the specification of a step;
* `Visit.after` and `Visit.completes` say the same of an update and of a jump;
* `Schedule.visit_spec` is what a visit returns.
-/

namespace PlanPlayback

/-- The fluents after an event is completed. -/
def Store.settle (s : Store) (e : Event) : Store :=
  (s.applyTogether e.effects).store

/-- What every write preserves is preserved when an event is completed. -/
theorem Store.settle_induction {motive : Store → Prop} {s : Store}
    (hwrite : ∀ s key update amount, motive s → motive (s.write key update amount))
    (h : motive s) (e : Event) : motive (s.settle e) := by
  unfold settle applyTogether
  refine List.foldlRecOn e.effects _ (motive := fun done : Applied => motive done.store) h ?_
  intro done hdone effect _
  unfold addEffect
  split
  · exact hdone
  · split
    · exact hwrite _ _ _ _ hdone
    · exact hdone

theorem Store.foldl_settle_induction {motive : Store → Prop} {s : Store}
    (hwrite : ∀ s key update amount, motive s → motive (s.write key update amount))
    (h : motive s) (events : List Event) : motive (events.foldl settle s) :=
  List.foldlRecOn events _ h fun _ hs e _ => settle_induction hwrite hs e

/-! ## A single event -/

namespace Event

/-- Whether all of an event has passed at a time. -/
def isPastAt (e : Event) (time : Float) : Bool :=
  1.0 <= e.progressAt time

/-- Whether an event is over at a time: its start has come, and all of it has passed. -/
def isOverAt (e : Event) (time : Float) : Bool :=
  !(time < e.start) && e.isPastAt time

/-- Whether a step to a time starts an event. -/
def startsAt (e : Event) (time : Float) : Bool :=
  e.status = .pending && !(time < e.start)

/-- Whether a step to a time lets an event progress. -/
def proceedsAt (e : Event) (time : Float) : Bool :=
  e.status = .started || e.startsAt time

/-- Whether a step to a time completes an event. -/
def completesAt (e : Event) (time : Float) : Bool :=
  e.proceedsAt time && e.isPastAt time

/-- A started event that has not progressed. -/
def atStart (e : Event) : Event :=
  { e with status := .started, progress := 0.0 }

/-- A started event that has progressed up to a time, or the completed event if all of it has
passed. -/
def during (e : Event) (time : Float) : Event :=
  if e.isPastAt time then { e with status := .completed, progress := 1.0 }
  else { e with status := .started, progress := e.progressAt time }

/-- An event after a step to a time. -/
def advanced (e : Event) (time : Float) : Event :=
  if e.proceedsAt time then e.during time else e

theorem begin_of_startsAt {e : Event} {time : Float} (h : e.startsAt time = true) (store : Store) :
    e.begin time store =
      { event := e.atStart, store, started := 1, notices := [.started e.atStart time] } :=
  if_pos h

theorem begin_of_not_startsAt {e : Event} {time : Float} (h : e.startsAt time = false)
    (store : Store) : e.begin time store = { event := e, store } :=
  if_neg (Bool.eq_false_iff.mp h)

theorem proceed_of_started {e : Event} (time : Float) (store : Store) (h : e.status = .started) :
    (e.proceed time store).event = e.during time ∧
      (e.proceed time store).store = (if e.isPastAt time then store.settle e else store) ∧
      (e.proceed time store).completed = if e.isPastAt time then 1 else 0 := by
  unfold proceed during isPastAt
  rw [if_pos h]
  by_cases hpast : 1.0 <= e.progressAt time
  · rw [if_pos hpast, decide_eq_true hpast]
    exact ⟨rfl, rfl, rfl⟩
  · rw [if_neg hpast, decide_eq_false hpast, ← h]
    exact ⟨rfl, rfl, rfl⟩

theorem proceed_of_ne_started {e : Event} (time : Float) (store : Store) (h : e.status ≠ .started) :
    e.proceed time store = { event := e, store } :=
  if_neg h

/-- **What a step does.**  The event moves on its own, and its effects are applied exactly if the
step completes it. -/
theorem step_spec (e : Event) (time : Float) (store : Store) :
    (e.step time store).event = e.advanced time ∧
      (e.step time store).store = (if e.completesAt time then store.settle e else store) ∧
      (e.step time store).completed = if e.completesAt time then 1 else 0 := by
  unfold step advanced completesAt
  cases hstarts : e.startsAt time with
  | true =>
    -- an event progresses in the step that starts it
    have hproceeds : e.proceedsAt time = true := by rw [proceedsAt, hstarts, Bool.or_true]
    rw [begin_of_startsAt hstarts store, hproceeds]
    exact proceed_of_started (e := e.atStart) time store rfl
  | false =>
    rw [begin_of_not_startsAt hstarts store]
    by_cases hstarted : e.status = .started
    · have hproceeds : e.proceedsAt time = true := by
        rw [proceedsAt, decide_eq_true hstarted, Bool.true_or]
      rw [hproceeds]
      exact proceed_of_started (e := e) time store hstarted
    · have hproceeds : e.proceedsAt time = false := by
        rw [proceedsAt, decide_eq_false hstarted, hstarts, Bool.or_false]
      simp only
      rw [proceed_of_ne_started time store hstarted, hproceeds]
      exact ⟨rfl, rfl, rfl⟩

@[simp] theorem rewind_advanced (e : Event) (time : Float) :
    (e.advanced time).rewind = e.rewind := by
  unfold advanced during
  split
  · split <;> rfl
  · rfl

@[simp] theorem rewind_forget (e : Event) : e.forget.rewind = e.rewind := by
  unfold forget
  split <;> rfl

@[simp] theorem isCompleted_forget (e : Event) : e.forget.isCompleted = e.isCompleted := by
  unfold forget
  split_ifs with hstarted
  · rw [isCompleted, isCompleted, hstarted]
    rfl
  · rfl

theorem proceedsAt_of_isCompleted {e : Event} (h : e.isCompleted = true) (time : Float) :
    e.proceedsAt time = false := by
  have hstatus : e.status = .completed := eq_of_beq h
  rw [proceedsAt, startsAt, hstatus]
  rfl

/-- A completed event is not completed again. -/
theorem completesAt_of_isCompleted {e : Event} (h : e.isCompleted = true) (time : Float) :
    e.completesAt time = false := by
  rw [completesAt, proceedsAt_of_isCompleted h, Bool.false_and]

theorem advanced_of_isCompleted {e : Event} (h : e.isCompleted = true) (time : Float) :
    e.advanced time = e := by
  rw [advanced, proceedsAt_of_isCompleted h]
  rfl

theorem isCompleted_advanced (e : Event) (time : Float) :
    (e.advanced time).isCompleted = (e.isCompleted || e.completesAt time) := by
  cases hcompleted : e.isCompleted with
  | true => rw [advanced_of_isCompleted hcompleted, hcompleted, Bool.true_or]
  | false =>
    rw [Bool.false_or, advanced, completesAt]
    cases e.proceedsAt time with
    | false => exact hcompleted
    | true =>
      rw [if_pos rfl, during, Bool.true_and]
      cases e.isPastAt time <;> rfl

/-- After a jump, a completed event stays as it is, and any other event makes a step. -/
theorem revisit_spec (e : Event) (time : Float) (store : Store) :
    (e.revisit time store).event = e.advanced time ∧
      (e.revisit time store).store = (if e.completesAt time then store.settle e else store) ∧
      (e.revisit time store).completed = if e.completesAt time then 1 else 0 := by
  unfold revisit
  cases hcompleted : e.isCompleted with
  | true =>
    rw [advanced_of_isCompleted hcompleted, completesAt_of_isCompleted hcompleted]
    exact ⟨rfl, rfl, rfl⟩
  | false => exact step_spec e time store

end Event

@[simp] theorem Store.settle_forget (s : Store) (e : Event) : s.settle e.forget = s.settle e := by
  unfold Event.forget
  split <;> rfl

/-! ## All events of a schedule -/

namespace Pass

variable {visit : Event → Store → Step} {after : Event → Event} {completes : Event → Bool}

/-- A pass over events, from what is known of a single visit. -/
theorem run_spec
    (hvisit : ∀ e store, (visit e store).event = after e ∧
      (visit e store).store = (if completes e then store.settle e else store) ∧
      (visit e store).completed = if completes e then 1 else 0)
    (events : List Event) (store : Store) :
    (run visit events store).events = events.map after ∧
      (run visit events store).store = (events.filter completes).foldl Store.settle store ∧
      (run visit events store).completed = events.countP completes := by
  induction events generalizing store with
  | nil => exact ⟨rfl, rfl, rfl⟩
  | cons e rest ih =>
    obtain ⟨hevent, hstore, hcompleted⟩ := hvisit e store
    obtain ⟨ihevents, ihstore, ihcompleted⟩ := ih (visit e store).store
    refine ⟨?_, ?_, ?_⟩
    · rw [run, ihevents, hevent, List.map_cons]
    · rw [run, ihstore, hstore, List.filter_cons]
      split <;> rfl
    · rw [run, ihcompleted, hcompleted, List.countP_cons]
      exact Nat.add_comm _ _

end Pass

/-- A visit of all events: an update at a time, or a jump to it. -/
inductive Visit where
  | update (time : Float)
  | jump (time : Float)

namespace Visit

/-- An event after a visit. -/
def after : Visit → Event → Event
  | .update time, e => e.advanced time
  | .jump time, e => e.forget.advanced time

/-- Whether a visit completes an event. -/
def completes : Visit → Event → Bool
  | .update time, e => e.completesAt time
  | .jump time, e => e.forget.completesAt time

@[simp] theorem rewind_after (v : Visit) (e : Event) : (v.after e).rewind = e.rewind := by
  cases v with
  | update time => exact e.rewind_advanced time
  | jump time => exact (e.forget.rewind_advanced time).trans e.rewind_forget

theorem isCompleted_after (v : Visit) (e : Event) :
    (v.after e).isCompleted = (e.isCompleted || v.completes e) := by
  cases v with
  | update time => exact e.isCompleted_advanced time
  | jump time =>
    rw [after, Event.isCompleted_advanced, e.isCompleted_forget]
    rfl

/-- A visit completes an event only once. -/
theorem completes_of_isCompleted (v : Visit) {e : Event} (h : e.isCompleted = true) :
    v.completes e = false := by
  cases v with
  | update time => exact Event.completesAt_of_isCompleted h time
  | jump time => exact Event.completesAt_of_isCompleted (e.isCompleted_forget.trans h) time

end Visit

namespace Schedule

/-- The schedule and the fluents after a visit. -/
def visit (s : Schedule) (v : Visit) (store : Store) : Pass :=
  match v with
  | .update time => s.update time store
  | .jump time => s.seek time store

/-- **What a visit does.**  Every event moves on its own, and those that the visit completes are
settled in the order in which they are registered. -/
theorem visit_spec (s : Schedule) (v : Visit) (store : Store) :
    (s.visit v store).events = s.events.map v.after ∧
      (s.visit v store).store = (s.events.filter v.completes).foldl Store.settle store ∧
      (s.visit v store).completed = s.events.countP v.completes := by
  cases v with
  | update time => exact Pass.run_spec (fun e store => e.step_spec time store) s.events store
  | jump time =>
    obtain ⟨hevents, hstore, hcompleted⟩ :=
      Pass.run_spec (fun e store => e.revisit_spec time store) (s.events.map Event.forget) store
    -- forgetting how far events have got changes neither their effects nor their number
    have hsettle : (fun store e => Store.settle store (Event.forget e)) = Store.settle := by
      funext store e
      exact store.settle_forget e
    refine ⟨?_, ?_, ?_⟩
    · exact hevents.trans List.map_map
    · refine hstore.trans ?_
      rw [List.filter_map, List.foldl_map, hsettle]
      rfl
    · exact hcompleted.trans List.countP_map

end Schedule

end PlanPlayback
