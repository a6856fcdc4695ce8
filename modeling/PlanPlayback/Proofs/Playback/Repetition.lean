import PlanPlayback.Proofs.Playback.Progress

/-!
# Visiting twice at one time

A visit brings the events in line with a time, and a second visit at the same time finds them so: no
event is started, none is completed, and the fluents are not touched again.  This holds from any
state of the events, also of one that has been started although its start still lies ahead, and at
any time, also at one that is no number.

Where an event stands is told by `Event.InLine`.  A step brings every event in line
(`Event.inLine_advanced`), and it leaves an event that is in line as it is
(`Event.InLine.advanced_eq`).  A jump first lets the started events forget how far they have got, so
it leaves an event as it is only if the event would be started again.  That is what `Event.IsEarly`
excludes: no event is early after a jump (`Event.not_isEarly_advanced`), though one may be after an
update.

* `Visit.starts` says which events a visit starts, `Schedule.started_visit` how many;
* `Schedule.visits_idempotent` is the result.
-/

namespace PlanPlayback

/-! ## The events that a visit starts -/

namespace Event

theorem started_step (e : Event) (time : Float) (store : Store) :
    (e.step time store).started = if e.startsAt time then 1 else 0 := by
  unfold step
  cases hstarts : e.startsAt time with
  | true => rw [begin_of_startsAt hstarts store, if_pos rfl]
  | false => rw [begin_of_not_startsAt hstarts store, if_neg Bool.false_ne_true]

theorem started_revisit (e : Event) (time : Float) (store : Store) :
    (e.revisit time store).started = if e.startsAt time then 1 else 0 := by
  unfold revisit
  cases hcompleted : e.isCompleted with
  | false => exact e.started_step time store
  | true =>
    have hstarts : e.startsAt time = false := by
      have hproceeds := proceedsAt_of_isCompleted hcompleted time
      rw [proceedsAt, Bool.or_eq_false_iff] at hproceeds
      exact hproceeds.2
    rw [hstarts]
    rfl

end Event

namespace Pass

variable {visit : Event → Store → Step} {starts : Event → Bool}

theorem started_run
    (hvisit : ∀ e store, (visit e store).started = if starts e then 1 else 0)
    (events : List Event) (store : Store) :
    (run visit events store).started = events.countP starts := by
  induction events generalizing store with
  | nil => rfl
  | cons e rest ih => rw [run, ih, hvisit, List.countP_cons, Nat.add_comm]

end Pass

/-- Whether a visit starts an event. -/
def Visit.starts : Visit → Event → Bool
  | .update time, e => e.startsAt time
  | .jump time, e => e.forget.startsAt time

theorem Schedule.started_visit (s : Schedule) (v : Visit) (store : Store) :
    (s.visit v store).started = s.events.countP v.starts := by
  cases v with
  | update time => exact Pass.started_run (fun e store => e.started_step time store) s.events store
  | jump time =>
    have hstarted := Pass.started_run (fun e store => e.started_revisit time store)
      (s.events.map Event.forget) store
    exact hstarted.trans List.countP_map

/-! ## Events that are in line with a time -/

namespace Event

/-- An event that stands where a time puts it: it waits for its start, it is running and shows how
far it has got, or it is completed. -/
inductive InLine (e : Event) (time : Float) : Prop where
  | waiting (hstatus : e.status = .pending) (hstart : time < e.start)
  | running (hstatus : e.status = .started) (hpast : e.isPastAt time = false)
      (hprogress : e.progress = e.progressAt time)
  | completed (hcompleted : e.isCompleted = true)

/-- An event that has been started although its start has not come. -/
def IsEarly (e : Event) (time : Float) : Prop :=
  e.status = .started ∧ time < e.start

theorem inLine_during (e : Event) (time : Float) : (e.during time).InLine time := by
  unfold during
  cases hpast : e.isPastAt time with
  | true => exact .completed rfl
  | false => exact .running rfl hpast rfl

/-- **A step brings an event in line.** -/
theorem inLine_advanced (e : Event) (time : Float) : (e.advanced time).InLine time := by
  unfold advanced
  cases hproceeds : e.proceedsAt time with
  | true => exact e.inLine_during time
  | false =>
    rw [proceedsAt, Bool.or_eq_false_iff, decide_eq_false_iff_not] at hproceeds
    obtain ⟨hnot_started, hnot_starts⟩ := hproceeds
    rw [if_neg Bool.false_ne_true]
    cases hstatus : e.status with
    | pending =>
      refine .waiting hstatus ?_
      simpa [startsAt, hstatus] using hnot_starts
    | started => exact absurd hstatus hnot_started
    | completed =>
      refine .completed ?_
      rw [isCompleted, hstatus]
      rfl

namespace InLine

variable {e : Event} {time : Float}

theorem startsAt_eq (h : e.InLine time) : e.startsAt time = false := by
  cases h with
  | waiting hstatus hstart => simp [startsAt, hstart]
  | running hstatus hpast hprogress => simp [startsAt, hstatus]
  | completed hcompleted =>
    have hstatus : e.status = .completed := eq_of_beq hcompleted
    simp [startsAt, hstatus]

theorem completesAt_eq (h : e.InLine time) : e.completesAt time = false := by
  cases h with
  | waiting hstatus hstart => simp [completesAt, proceedsAt, startsAt, hstatus, hstart]
  | running hstatus hpast hprogress => rw [completesAt, hpast, Bool.and_false]
  | completed hcompleted => exact completesAt_of_isCompleted hcompleted time

/-- **A step leaves an event that is in line as it is.** -/
theorem advanced_eq (h : e.InLine time) : e.advanced time = e := by
  cases h with
  | waiting hstatus hstart =>
    have hproceeds : e.proceedsAt time = false := by simp [proceedsAt, startsAt, hstatus, hstart]
    rw [advanced, hproceeds, if_neg Bool.false_ne_true]
  | running hstatus hpast hprogress =>
    rw [advanced_of_started hstatus, during, hpast, if_neg Bool.false_ne_true, ← hprogress,
      ← hstatus]
  | completed hcompleted => exact advanced_of_isCompleted hcompleted time

theorem forget_completesAt_eq (h : e.InLine time) : e.forget.completesAt time = false := by
  by_cases hstarted : e.status = .started
  · cases h with
    | waiting hstatus hstart => rw [hstatus] at hstarted; cases hstarted
    | running hstatus hpast hprogress =>
      have hpast' : e.rewind.isPastAt time = false := hpast
      rw [forget, if_pos hstarted, completesAt, hpast', Bool.and_false]
    | completed hcompleted => exact completesAt_of_isCompleted (e.isCompleted_forget ▸ hcompleted) time
  · rw [forget, if_neg hstarted]
    exact h.completesAt_eq

/-- A jump leaves an event that is in line as it is, unless the event is early. -/
theorem advanced_forget_eq (h : e.InLine time) (hearly : ¬e.IsEarly time) :
    e.forget.advanced time = e := by
  by_cases hstarted : e.status = .started
  · -- the event is rewound, and the jump starts it again
    have hbegun : ¬time < e.start := fun hlt => hearly ⟨hstarted, hlt⟩
    have hadvanced := h.advanced_eq
    rw [advanced_of_started hstarted] at hadvanced
    rw [forget, if_pos hstarted, advanced_rewind, if_neg hbegun, hadvanced]
  · rw [forget, if_neg hstarted]
    exact h.advanced_eq

end InLine

theorem not_isEarly_advanced {e : Event} (h : e.status ≠ .started) (time : Float) :
    ¬(e.advanced time).IsEarly time := by
  intro ⟨hstatus, hstart⟩
  unfold advanced at hstatus hstart
  split_ifs at hstatus hstart with hproceeds
  · -- only an event whose start has come is started by the step
    have hstarts : e.startsAt time = true := by simpa [proceedsAt, h] using hproceeds
    have hsame : (e.during time).start = e.start := by
      unfold during
      split <;> rfl
    rw [hsame] at hstart
    simp [startsAt, hstart] at hstarts
  · exact h hstatus

theorem status_forget_ne (e : Event) : e.forget.status ≠ .started := by
  unfold forget
  split_ifs with hstarted
  · exact nofun
  · exact hstarted

end Event

/-! ## The second of two visits -/

/-- A pass that comes after another one and finds nothing to do: it leaves events and fluents as the
first one has left them, and completes no event. -/
structure Pass.IsIdleAfter (second first : Pass) : Prop where
  events_eq : second.events = first.events
  store_eq : second.store = first.store
  completed_eq : second.completed = 0

namespace Schedule

variable {first : Pass} {v : Visit}

theorem isIdleAfter_visit (hafter : ∀ e ∈ first.events, v.after e = e)
    (hcompletes : ∀ e ∈ first.events, v.completes e = false) :
    (visit ⟨first.events⟩ v first.store).IsIdleAfter first := by
  obtain ⟨hevents, hstore, hcompleted⟩ := visit_spec ⟨first.events⟩ v first.store
  refine ⟨?_, ?_, ?_⟩
  · rw [hevents]
    exact (List.map_congr_left hafter).trans (List.map_id first.events)
  · have hnone : first.events.filter v.completes = [] :=
      List.filter_eq_nil_iff.mpr fun e he => Bool.eq_false_iff.mp (hcompletes e he)
    rw [hstore, hnone]
    rfl
  · rw [hcompleted]
    exact List.countP_eq_zero.mpr fun e he => Bool.eq_false_iff.mp (hcompletes e he)

/-- An update finds nothing to do when all events are in line with its time. -/
theorem isIdleAfter_update {time : Float} (h : ∀ e ∈ first.events, e.InLine time) :
    (update ⟨first.events⟩ time first.store).IsIdleAfter first ∧
      (update ⟨first.events⟩ time first.store).started = 0 := by
  constructor
  · exact isIdleAfter_visit (v := .update time) (fun e he => (h e he).advanced_eq)
      fun e he => (h e he).completesAt_eq
  · have hstarted := started_visit ⟨first.events⟩ (.update time) first.store
    refine hstarted.trans (List.countP_eq_zero.mpr ?_)
    intro e he
    exact Bool.eq_false_iff.mp (h e he).startsAt_eq

/-- A jump finds nothing to do when all events are in line with its time and none is early. -/
theorem isIdleAfter_seek {time : Float} (h : ∀ e ∈ first.events, e.InLine time)
    (hearly : ∀ e ∈ first.events, ¬e.IsEarly time) :
    (seek ⟨first.events⟩ time first.store).IsIdleAfter first :=
  isIdleAfter_visit (v := .jump time) (fun e he => (h e he).advanced_forget_eq (hearly e he))
    fun e he => (h e he).forget_completesAt_eq

theorem forall_mem_events_visit {P : Event → Prop} (s : Schedule) (v : Visit) (store : Store)
    (h : ∀ e, P (v.after e)) : ∀ e ∈ (s.visit v store).events, P e := by
  intro e he
  rw [(s.visit_spec v store).1] at he
  obtain ⟨before, -, rfl⟩ := List.mem_map.mp he
  exact h before

/-- **A second visit at the same time changes nothing.**  Whatever the state of the events, the
fluents and the time: an update after an update, a jump after a jump, and an update after a jump
leave events and fluents as they find them and complete no event, and the updates start none. -/
theorem visits_idempotent (s : Schedule) (store : Store) (time : Float) :
    let updated := s.update time store
    let sought := s.seek time store
    let updatedTwice := update ⟨updated.events⟩ time updated.store
    let soughtTwice := seek ⟨sought.events⟩ time sought.store
    let soughtThenUpdated := update ⟨sought.events⟩ time sought.store
    (updatedTwice.IsIdleAfter updated ∧ updatedTwice.started = 0) ∧
      soughtTwice.IsIdleAfter sought ∧
      soughtThenUpdated.IsIdleAfter sought ∧ soughtThenUpdated.started = 0 := by
  intro updated sought updatedTwice soughtTwice soughtThenUpdated
  have hupdated : ∀ e ∈ updated.events, e.InLine time :=
    s.forall_mem_events_visit (.update time) store fun e => e.inLine_advanced time
  have hsought : ∀ e ∈ sought.events, e.InLine time :=
    s.forall_mem_events_visit (.jump time) store fun e => e.forget.inLine_advanced time
  have hearly : ∀ e ∈ sought.events, ¬e.IsEarly time :=
    s.forall_mem_events_visit (.jump time) store fun e =>
      Event.not_isEarly_advanced e.status_forget_ne time
  exact ⟨isIdleAfter_update hupdated, isIdleAfter_seek hsought hearly, isIdleAfter_update hsought⟩

end Schedule

end PlanPlayback
