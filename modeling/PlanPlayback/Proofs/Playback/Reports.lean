import Mathlib.Computability.Language
import Mathlib.Order.CompletePartialOrder
import Mathlib.Tactic.GCongr
import PlanPlayback.Playback.Audience
import PlanPlayback.Proofs.Playback.Completion

/-!
# What listeners are told

A schedule is visited before an audience.  What a listener is told of an event in the course of
many visits is always a word of the same language: rounds that begin with a start and go on with
progress, each broken off by a jump, and at most one completion, after which only progress is shown
again.

## Strategy

What a visit reports of an event depends on the event and the visit alone, not on the fluents
(`Schedule.calls_visit`), so the events can be followed one by one.  The automaton of the language
has the states of an event for its states: `heardUpTo` is what may have been heard of an event in
each of them, and a visit leads from one to the next (`mem_heardUpTo_after`).  A jump, which rewinds
a started event without a word, is the one step that changes the state and not what was heard.

* `Performance` follows visits before an audience;
* `Listener.told` is what a listener is told, event by event within each visit;
* `Performance.reports_follow_protocol` is the result.
-/

namespace PlanPlayback

open scoped Computability

/-! ## The reports of a visit -/

namespace Event

/-- What is reported of an event in a step to a time. -/
def reportsAt (e : Event) (time : Float) : List Call :=
  (if e.startsAt time then [⟨.started, e.atStart, none⟩] else []) ++
    if e.proceedsAt time then
      [if e.isPastAt time then ⟨.completed, e.during time, none⟩
        else ⟨.progress, e.during time, some (e.progressAt time)⟩]
    else []

theorem calls_clamped (clampings : List Clamping) :
    (clampings.map Notice.clamped).filterMap Notice.call? = [] := by
  simp [Notice.call?]

theorem calls_proceed {e : Event} (time : Float) (store : Store) (h : e.status = .started) :
    (e.proceed time store).notices.filterMap Notice.call? =
      [if e.isPastAt time then ⟨.completed, e.during time, none⟩
        else ⟨.progress, e.during time, some (e.progressAt time)⟩] := by
  unfold proceed during isPastAt
  rw [if_pos h]
  by_cases hpast : 1.0 <= e.progressAt time
  · simp only [hpast, if_true, decide_true, complete, List.filterMap_append, calls_clamped]
    rfl
  · simp only [hpast, if_false, decide_false, Bool.false_eq_true, ← h]
    rfl

theorem calls_step (e : Event) (time : Float) (store : Store) :
    (e.step time store).notices.filterMap Notice.call? = e.reportsAt time := by
  unfold step reportsAt
  cases hstarts : e.startsAt time with
  | true =>
    have hproceeds : e.proceedsAt time = true := by simp [proceedsAt, hstarts]
    rw [begin_of_startsAt hstarts store, hproceeds, List.filterMap_append,
      calls_proceed (e := e.atStart) time store rfl]
    rfl
  | false =>
    rw [begin_of_not_startsAt hstarts store, List.filterMap_append]
    by_cases hstarted : e.status = .started
    · have hproceeds : e.proceedsAt time = true := by simp [proceedsAt, hstarted]
      simp only [hproceeds, calls_proceed time store hstarted]
      rfl
    · have hproceeds : e.proceedsAt time = false := by simp [proceedsAt, hstarted, hstarts]
      simp only [hproceeds, proceed_of_ne_started time store hstarted]
      rfl

/-- What is reported of an event in a step after a jump: of a completed event, the progress is shown
once more. -/
def reportsAfterJump (e : Event) (time : Float) : List Call :=
  if e.isCompleted then
    if e.covers time then [⟨.progress, e, some (e.progressAt time)⟩] else []
  else e.reportsAt time

theorem calls_revisit (e : Event) (time : Float) (store : Store) :
    (e.revisit time store).notices.filterMap Notice.call? = e.reportsAfterJump time := by
  unfold revisit reportsAfterJump
  cases e.isCompleted with
  | true => cases e.covers time <;> rfl
  | false => exact e.calls_step time store

end Event

/-- What is reported of an event in a visit. -/
def Visit.reports : Visit → Event → List Call
  | .update time, e => e.reportsAt time
  | .jump time, e => e.forget.reportsAfterJump time

theorem Pass.calls_run {visit : Event → Store → Step} {reports : Event → List Call}
    (hvisit : ∀ e store, (visit e store).notices.filterMap Notice.call? = reports e)
    (events : List Event) (store : Store) :
    (run visit events store).notices.filterMap Notice.call? = events.flatMap reports := by
  induction events generalizing store with
  | nil => rfl
  | cons e rest ih => rw [run, List.filterMap_append, hvisit, ih, List.flatMap_cons]

/-- **What a visit reports.**  Of every event it reports what the event and the visit say, in the
order in which the events are registered. -/
theorem Schedule.calls_visit (s : Schedule) (v : Visit) (store : Store) :
    (s.visit v store).notices.filterMap Notice.call? = s.events.flatMap v.reports := by
  cases v with
  | update time =>
    exact Pass.calls_run (fun e store => e.calls_step time store) s.events store
  | jump time =>
    have hrun := Pass.calls_run (fun e store => e.calls_revisit time store)
      (s.events.map Event.forget) store
    change List.filterMap _ ((Pass.run _ (s.events.map Event.forget) store).notices ++ _) = _
    rw [List.filterMap_append, hrun, List.flatMap_map]
    exact List.append_nil _

/-! ## The language of reports -/

/-- The word of a single report. -/
def letter (phase : Phase) : Language Phase :=
  {[phase]}

/-- A start and the progress that follows it. -/
def started : Language Phase :=
  letter .started * letter .progress * (letter .progress)∗

/-- What is reported of an event that is not completed: any number of starts, each with progress. -/
def unfinished : Language Phase :=
  started∗

/-- What is reported of a completed event: a last start, progress or none, the completion, and
progress that is shown again. -/
def finished : Language Phase :=
  started∗ * letter .started * (letter .progress)∗ * letter .completed * (letter .progress)∗

/-- What may be reported of an event. -/
def protocol : Language Phase :=
  unfinished + finished

/-- What may have been reported of an event in a state. -/
def heardUpTo : EventStatus → Language Phase
  | .pending => unfinished
  | .started => started∗ * started
  | .completed => finished

theorem append_letter_mem {w : List Phase} {L : Language Phase} (h : w ∈ L) (phase : Phase) :
    w ++ [phase] ∈ L * letter phase :=
  Language.append_mem_mul h rfl

theorem heardUpTo_started_le : heardUpTo .started ≤ unfinished :=
  kstar_mul_le_kstar

theorem heardUpTo_le_protocol (status : EventStatus) : heardUpTo status ≤ protocol := by
  cases status with
  | pending => exact le_self_add
  | started => exact heardUpTo_started_le.trans le_self_add
  | completed => exact le_add_self

theorem mul_progress_le (L : Language Phase) :
    L * (letter .progress)∗ * letter .progress ≤ L * (letter .progress)∗ := by
  rw [mul_assoc]
  gcongr
  exact kstar_mul_le_kstar

/-- A start that progress follows opens a new round. -/
theorem unfinished_mul_progress_le :
    unfinished * letter .started * letter .progress ≤ heardUpTo .started := by
  simp only [unfinished, heardUpTo, mul_assoc]
  gcongr
  simp only [started, mul_assoc]
  gcongr
  exact le_mul_of_one_le_right' one_le_kstar

/-- A round may be completed before there is any progress. -/
theorem unfinished_mul_completed_le :
    unfinished * letter .started * letter .completed ≤ finished := by
  unfold unfinished finished
  have hnone : started∗ * letter .started ≤ started∗ * letter .started * (letter .progress)∗ :=
    le_mul_of_one_le_right' one_le_kstar
  calc started∗ * letter .started * letter .completed
      ≤ started∗ * letter .started * (letter .progress)∗ * letter .completed :=
        mul_le_mul_left hnone _
    _ ≤ _ := le_mul_of_one_le_right' one_le_kstar

theorem started_mul_completed_le : heardUpTo .started * letter .completed ≤ finished := by
  unfold heardUpTo finished
  calc started∗ * started * letter .completed
      = started∗ * letter .started * (letter .progress * (letter .progress)∗) *
          letter .completed := by simp only [started, mul_assoc]
    _ ≤ started∗ * letter .started * (letter .progress)∗ * letter .completed := by
        gcongr
        exact mul_kstar_le_kstar
    _ ≤ _ := le_mul_of_one_le_right' one_le_kstar

/-! ## The automaton -/

namespace Event

/-- The state in which a step that lets an event progress leaves it. -/
def statusDuring (e : Event) (time : Float) : EventStatus :=
  if e.isPastAt time then .completed else .started

/-- The report of a step that lets an event progress. -/
def phaseDuring (e : Event) (time : Float) : Phase :=
  if e.isPastAt time then .completed else .progress

theorem status_advanced (e : Event) (time : Float) :
    (e.advanced time).status = if e.proceedsAt time then e.statusDuring time else e.status := by
  unfold advanced during statusDuring
  split_ifs <;> rfl

theorem phases_reportsAt (e : Event) (time : Float) :
    (e.reportsAt time).map Call.phase =
      (if e.startsAt time then [.started] else []) ++
        if e.proceedsAt time then [e.phaseDuring time] else [] := by
  unfold reportsAt phaseDuring
  split_ifs <;> rfl

/-- A step appends to what has been heard of an event what leads to its next state. -/
theorem mem_heardUpTo_advanced {w : List Phase} {e : Event} (h : w ∈ heardUpTo e.status)
    (time : Float) :
    w ++ (e.reportsAt time).map Call.phase ∈ heardUpTo (e.advanced time).status := by
  rw [phases_reportsAt, status_advanced]
  cases hstatus : e.status with
  | pending =>
    rw [hstatus] at h
    by_cases hwaiting : time < e.start
    · simpa [startsAt, proceedsAt, hstatus, hwaiting] using h
    · have hstarted : w ++ [.started] ∈ unfinished * letter .started := append_letter_mem h _
      cases hpast : e.isPastAt time with
      | false =>
        have hprogress : w ++ [.started] ++ [.progress] ∈ heardUpTo .started :=
          unfinished_mul_progress_le (append_letter_mem hstarted _)
        simpa [startsAt, proceedsAt, statusDuring, phaseDuring, hstatus, hwaiting, hpast]
          using hprogress
      | true =>
        have hcompleted : w ++ [.started] ++ [.completed] ∈ finished :=
          unfinished_mul_completed_le (append_letter_mem hstarted _)
        simpa [startsAt, proceedsAt, statusDuring, phaseDuring, hstatus, hwaiting, hpast, heardUpTo]
          using hcompleted
  | started =>
    rw [hstatus] at h
    cases hpast : e.isPastAt time with
    | false =>
      have hprogress : w ++ [.progress] ∈ heardUpTo .started := by
        have hmem := append_letter_mem h .progress
        unfold heardUpTo started at hmem ⊢
        rw [← mul_assoc] at hmem ⊢
        exact mul_progress_le _ hmem
      simpa [startsAt, proceedsAt, statusDuring, phaseDuring, hstatus, hpast] using hprogress
    | true =>
      have hcompleted : w ++ [.completed] ∈ finished :=
        started_mul_completed_le (append_letter_mem h _)
      simpa [startsAt, proceedsAt, statusDuring, phaseDuring, hstatus, hpast, heardUpTo]
        using hcompleted
  | completed =>
    rw [hstatus] at h
    simpa [startsAt, proceedsAt, hstatus] using h

/-- A jump takes a started event back to the end of its round. -/
theorem mem_heardUpTo_forget {w : List Phase} {e : Event} (h : w ∈ heardUpTo e.status) :
    w ∈ heardUpTo e.forget.status := by
  unfold forget
  split_ifs with hstarted
  · rw [hstarted] at h
    exact heardUpTo_started_le h
  · exact h

theorem mem_heardUpTo_afterJump {w : List Phase} {e : Event} (h : w ∈ heardUpTo e.status)
    (time : Float) :
    w ++ (e.reportsAfterJump time).map Call.phase ∈ heardUpTo (e.advanced time).status := by
  unfold reportsAfterJump
  cases hcompleted : e.isCompleted with
  | false => exact mem_heardUpTo_advanced h time
  | true =>
    have hstatus : e.status = .completed := eq_of_beq hcompleted
    rw [advanced_of_isCompleted hcompleted, hstatus]
    rw [hstatus] at h
    cases e.covers time with
    | false => simpa using h
    | true => exact mul_progress_le _ (append_letter_mem h .progress)

end Event

/-- **A visit is a step of the automaton.** -/
theorem mem_heardUpTo_after {w : List Phase} {e : Event} (h : w ∈ heardUpTo e.status) (v : Visit) :
    w ++ (v.reports e).map Call.phase ∈ heardUpTo (v.after e).status := by
  cases v with
  | update time => exact Event.mem_heardUpTo_advanced h time
  | jump time => exact Event.mem_heardUpTo_afterJump (Event.mem_heardUpTo_forget h) time

/-! ## A single visit -/

/-- What a single visit may report of an event: a start only together with what follows it. -/
def callShapes : List (List Phase) :=
  [[], [.progress], [.completed], [.started, .progress], [.started, .completed]]

namespace Event

theorem phases_reportsAt_mem (e : Event) (time : Float) :
    (e.reportsAt time).map Call.phase ∈ callShapes := by
  rw [phases_reportsAt, proceedsAt, phaseDuring]
  cases e.startsAt time <;> cases e.isPastAt time <;> cases decide (e.status = .started) <;> decide

theorem phases_reportsAfterJump_mem (e : Event) (time : Float) :
    (e.reportsAfterJump time).map Call.phase ∈ callShapes := by
  unfold reportsAfterJump
  split_ifs
  · simp [callShapes]
  · simp [callShapes]
  · exact e.phases_reportsAt_mem time

theorem rewind_of_mem_reportsAt {e : Event} {time : Float} {call : Call}
    (h : call ∈ e.reportsAt time) : call.event.rewind = e.rewind := by
  have hduring : (e.during time).rewind = e.rewind := by
    unfold during
    split <;> rfl
  unfold reportsAt at h
  rcases List.mem_append.mp h with h | h
  · split_ifs at h
    · rw [List.mem_singleton.mp h]
      rfl
    · cases h
  · split_ifs at h
    · rw [List.mem_singleton.mp h]
      exact hduring
    · rw [List.mem_singleton.mp h]
      exact hduring
    · cases h

theorem rewind_of_mem_reportsAfterJump {e : Event} {time : Float} {call : Call}
    (h : call ∈ e.reportsAfterJump time) : call.event.rewind = e.rewind := by
  unfold reportsAfterJump at h
  split_ifs at h
  · rw [List.mem_singleton.mp h]
  · cases h
  · exact rewind_of_mem_reportsAt h

end Event

theorem Event.same_of_rewind {e e' : Event} (h : e.rewind = e'.rewind) :
    e.id = e'.id ∧ e.object = e'.object := by
  have hid := congrArg Event.id h
  have hobject := congrArg Event.object h
  exact ⟨hid, hobject⟩

theorem phases_reports_mem (v : Visit) (e : Event) :
    (v.reports e).map Call.phase ∈ callShapes := by
  cases v with
  | update time => exact e.phases_reportsAt_mem time
  | jump time => exact e.forget.phases_reportsAfterJump_mem time

/-- All reports of an event are about it. -/
theorem rewind_of_mem_reports {v : Visit} {e : Event} {call : Call} (h : call ∈ v.reports e) :
    call.event.rewind = e.rewind := by
  cases v with
  | update time => exact Event.rewind_of_mem_reportsAt h
  | jump time => exact (Event.rewind_of_mem_reportsAfterJump h).trans e.rewind_forget

/-! ## Listeners -/

namespace Listener

/-- What a listener is told of an event in a visit. -/
def toldOf (l : Listener) (v : Visit) (e : Event) : List Call :=
  (v.reports e).filter fun call => l.knows call.event.object

/-- What a listener is told of some events in the course of visits. -/
def told (l : Listener) : List Event → List Visit → List Call
  | _, [] => []
  | events, v :: rest => events.flatMap (l.toldOf v) ++ l.told (events.map v.after) rest

theorem heard_visit (l : Listener) (s : Schedule) (v : Visit) (store : Store) :
    l.heard (s.visit v store).notices = s.events.flatMap (l.toldOf v) := by
  rw [heard, s.calls_visit, List.filter_flatMap]
  rfl

theorem toldOf_eq (l : Listener) (v : Visit) (e : Event) :
    l.toldOf v e = if l.knows e.object then v.reports e else [] := by
  have hobject : ∀ call ∈ v.reports e, call.event.object = e.object := fun call hcall =>
    (Event.same_of_rewind (rewind_of_mem_reports hcall)).2
  unfold toldOf
  split_ifs with hknows
  · exact List.filter_eq_self.mpr fun call hcall => by rw [hobject call hcall, hknows]
  · exact List.filter_eq_nil_iff.mpr fun call hcall => by rw [hobject call hcall]; exact hknows

theorem object_after (v : Visit) (e : Event) : (v.after e).object = e.object :=
  (Event.same_of_rewind (v.rewind_after e)).2

theorem told_singleton_cons (l : Listener) (e : Event) (v : Visit) (rest : List Visit) :
    l.told [e] (v :: rest) = l.toldOf v e ++ l.told [v.after e] rest := by
  simp [told]

/-- Nothing is heard of an event whose object is not known. -/
theorem told_of_unknown {l : Listener} {e : Event} (h : l.knows e.object = false)
    (visits : List Visit) : l.told [e] visits = [] := by
  induction visits generalizing e with
  | nil => rfl
  | cons v rest ih =>
    rw [told_singleton_cons, toldOf_eq, h, ih (by rw [object_after, h])]
    rfl

/-- **A run of the automaton.** -/
theorem told_mem_protocol {l : Listener} {e : Event} (h : l.knows e.object = true) {w : List Phase}
    (hw : w ∈ heardUpTo e.status) (visits : List Visit) :
    w ++ (l.told [e] visits).map Call.phase ∈ protocol := by
  induction visits generalizing e w with
  | nil =>
    rw [told, List.map_nil, List.append_nil]
    exact heardUpTo_le_protocol e.status hw
  | cons v rest ih =>
    -- the visit extends what was heard before the remaining ones
    rw [told_singleton_cons, toldOf_eq, if_pos h, List.map_append, ← List.append_assoc]
    exact ih (by rw [object_after, h]) (mem_heardUpTo_after hw v)

theorem filter_toldOf (l : Listener) (v : Visit) (e : Event) (id : String) :
    (l.toldOf v e).filter (fun call => call.event.id == id) =
      if e.id = id then l.toldOf v e else [] := by
  have hid : ∀ call ∈ l.toldOf v e, call.event.id = e.id := fun call hcall =>
    (Event.same_of_rewind (rewind_of_mem_reports (List.mem_filter.mp hcall).1)).1
  split_ifs with hsame
  · exact List.filter_eq_self.mpr fun call hcall => by simp [hid call hcall, hsame]
  · exact List.filter_eq_nil_iff.mpr fun call hcall => by simp [hid call hcall, hsame]

theorem filter_flatMap_toldOf {l : Listener} {v : Visit} {events : List Event}
    (hnodup : (events.map Event.id).Nodup) {e : Event} (he : e ∈ events) :
    (events.flatMap (l.toldOf v)).filter (fun call => call.event.id == e.id) = l.toldOf v e := by
  obtain ⟨before, behind, rfl⟩ := List.append_of_mem he
  have hothers : ∀ other ∈ before ++ behind, other.id ≠ e.id := by
    intro other hother hsame
    have hperm : (before ++ e :: behind).Perm (e :: (before ++ behind)) := List.perm_middle
    have hnot_mem := (List.nodup_cons.mp ((hperm.map Event.id).nodup hnodup)).1
    exact hnot_mem (hsame ▸ List.mem_map_of_mem hother)
  have hnone : ∀ others ⊆ before ++ behind,
      others.flatMap (fun other =>
        (l.toldOf v other).filter (fun call => call.event.id == e.id)) = [] := by
    intro others hsubset
    refine List.flatMap_eq_nil_iff.mpr fun other hother => ?_
    rw [filter_toldOf, if_neg (hothers other (hsubset hother))]
  rw [List.filter_flatMap, List.flatMap_append, List.flatMap_cons, filter_toldOf, if_pos rfl,
    hnone before (List.subset_append_left _ _), hnone behind (List.subset_append_right _ _),
    List.nil_append, List.append_nil]

/-- Where identifiers tell the events apart, they tell what is heard of each. -/
theorem filter_told {l : Listener} {events : List Event} (hnodup : (events.map Event.id).Nodup)
    {e : Event} (he : e ∈ events) (visits : List Visit) :
    (l.told events visits).filter (fun call => call.event.id == e.id) = l.told [e] visits := by
  induction visits generalizing events e with
  | nil => rfl
  | cons v rest ih =>
    have hid : ∀ e, (v.after e).id = e.id := fun e => (Event.same_of_rewind (v.rewind_after e)).1
    have hids : (events.map v.after).map Event.id = events.map Event.id := by
      rw [List.map_map]
      exact List.map_congr_left fun e _ => hid e
    rw [told, told_singleton_cons, List.filter_append, filter_flatMap_toldOf hnodup he, ← hid e,
      ih (hids ▸ hnodup) (List.mem_map_of_mem he)]

end Listener

/-! ## Before an audience -/

/-- A listener that has been told some calls more, if it is still there. -/
def Member.hearing (m : Member) (calls : List Call) : Member :=
  if m.present then { m with calls := m.calls ++ calls } else m

@[simp] theorem Member.listener_hearing (m : Member) (calls : List Call) :
    (m.hearing calls).listener = m.listener := by
  unfold hearing
  split <;> rfl

theorem Member.hearing_hearing (m : Member) (calls later : List Call) :
    (m.hearing calls).hearing later = m.hearing (calls ++ later) := by
  cases hpresent : m.present <;> simp [hearing, hpresent]

theorem Member.hearing_nil (m : Member) : m.hearing [] = m := by
  simp [hearing]

/-- What has become of a schedule and of the listeners that watch it. -/
structure Performance where
  history : History
  audience : Audience
  deriving Repr

namespace Performance

/-- A performance with one visit more. -/
def next (p : Performance) (v : Visit) : Performance :=
  { history := p.history.next v
    audience := p.audience.tell (Schedule.visit ⟨p.history.events⟩ v p.history.store).notices }

/-- Visits of a schedule before an audience. -/
def ofVisits (events : List Event) (store : Store) (audience : Audience) (visits : List Visit) :
    Performance :=
  visits.foldl next ⟨⟨events, store, 0, []⟩, audience⟩

theorem audience_next (p : Performance) (v : Visit) :
    (p.next v).audience =
      p.audience.map fun m => m.hearing (p.history.events.flatMap (m.listener.toldOf v)) := by
  refine List.map_congr_left fun m _ => ?_
  rw [m.listener.heard_visit]
  rfl

/-- The listeners do not change what happens, and each is told what it knows of. -/
theorem foldl_next (visits : List Visit) (p : Performance) :
    (visits.foldl next p).history = visits.foldl History.next p.history ∧
      (visits.foldl next p).audience =
        p.audience.map fun m => m.hearing (m.listener.told p.history.events visits) := by
  induction visits generalizing p with
  | nil => simp [Listener.told, Member.hearing_nil]
  | cons v rest ih =>
    obtain ⟨hhistory, haudience⟩ := ih (p.next v)
    have hevents : (p.next v).history.events = p.history.events.map v.after :=
      (Schedule.visit_spec ⟨p.history.events⟩ v p.history.store).1
    refine ⟨hhistory, haudience.trans ?_⟩
    rw [hevents, audience_next, List.map_map]
    refine List.map_congr_left fun m _ => ?_
    simp [Member.hearing_hearing, Listener.told]

/-- **Reports follow a protocol.**  The events of a schedule have not begun, and updates and jumps
visit it before an audience.  Every listener that is present is told, visit by visit and event by
event, what is reported of the objects that it knows.  What it is told of one event in the whole run
is a word of `protocol`: rounds of a start and progress, and at most one completion, after which only
progress follows; and a visit reports a start only together with progress or the completion.  Where
identifiers tell the events apart, a listener can tell these words from its calls.  Of an event whose
object it does not know a listener hears nothing.  The effects are applied all the same: the fluents
are those that result from settling all completed events, whoever is told. -/
theorem reports_follow_protocol (events : List Event) (store : Store) (audience : Audience)
    (visits : List Visit) (hpending : ∀ e ∈ events, e.status = .pending) :
    let p := ofVisits events store audience visits
    p.audience = audience.map (fun m => m.hearing (m.listener.told events visits)) ∧
      (∀ (l : Listener), ∀ e ∈ events,
        (l.knows e.object = true → (l.told [e] visits).map Call.phase ∈ protocol) ∧
        (l.knows e.object = false → l.told [e] visits = []) ∧
        (∀ v e', (l.toldOf v e').map Call.phase ∈ callShapes) ∧
        ((events.map Event.id).Nodup →
          (l.told events visits).filter (fun call => call.event.id == e.id) = l.told [e] visits)) ∧
      p.history.store = store.settleAt events p.history.order ∧
      ∀ i, i ∈ p.history.order ↔ isCompletedAt p.history.events i = true := by
  intro p
  obtain ⟨hhistory, haudience⟩ := foldl_next visits ⟨⟨events, store, 0, []⟩, audience⟩
  have hfaithful : p.history.IsFaithful events store := by
    have hsame : p.history = History.ofVisits events store visits := hhistory
    rw [hsame]
    exact History.isFaithful_ofVisits store hpending visits
  refine ⟨haudience, fun l e he => ⟨fun hknows => ?_, fun hunknown => ?_, fun v e' => ?_,
    fun hnodup => ?_⟩, hfaithful.settled, hfaithful.completed⟩
  · have hsilent : [] ∈ heardUpTo e.status := by
      rw [hpending e he]
      exact Language.nil_mem_kstar _
    exact Listener.told_mem_protocol hknows hsilent visits
  · exact Listener.told_of_unknown hunknown visits
  · rw [Listener.toldOf_eq]
    split
    · exact phases_reports_mem v e'
    · simp [callShapes]
  · exact Listener.filter_told hnodup he visits

/-- What the lander does while the rover is charged. -/
def landing : Event :=
  { History.charging with id := "land:numeric", object := "lander", action := "land" }

/-- The charging of the rover is broken off by a jump, starts again, is completed and shown once more.
A scene with the rover alone hears this and nothing of the lander. -/
theorem charging_reports_follow_protocol :
    let events := [History.charging, landing]
    let scene : Listener := ⟨.recorder, some ["rover"]⟩
    let visits : List Visit := [.update 0.5, .jump 0.25, .update 2.0, .jump 0.5]
    (∀ e ∈ events, e.status = .pending) ∧
      (ofVisits events History.uncharged [⟨scene, true, []⟩] visits).audience =
        [(⟨scene, true, []⟩ : Member).hearing (scene.told events visits)] ∧
      ((scene.told events visits).filter fun call => call.event.id == "charge:numeric").map
        Call.phase = [.started, .progress, .started, .progress, .completed, .progress] ∧
      [.started, .progress, .started, .progress, .completed, .progress] ∈ protocol ∧
      scene.told [landing] visits = [] := by
  intro events scene visits
  have hpending : ∀ e ∈ events, e.status = .pending := by
    intro e he
    rcases List.mem_pair.mp he with rfl | rfl <;> rfl
  have hnodup : (events.map Event.id).Nodup := by decide
  have hknows : scene.knows History.charging.object = true := by decide
  have hunknown : scene.knows landing.object = false := by decide
  obtain ⟨haudience, hevents, -⟩ := reports_follow_protocol events History.uncharged
    [⟨scene, true, []⟩] visits hpending
  obtain ⟨hword, -, -, hfilter⟩ := hevents scene History.charging (by simp [events])
  have hphases : (scene.told [History.charging] visits).map Call.phase =
      [.started, .progress, .started, .progress, .completed, .progress] := by
    decide +kernel
  refine ⟨hpending, haudience, ?_, ?_, ?_⟩
  · have hcharging := hfilter hnodup
    rw [← hphases, ← hcharging]
    rfl
  · exact hphases ▸ hword hknows
  · exact (hevents scene landing (by simp [events])).2.1 hunknown

end Performance

end PlanPlayback
