import Mathlib.Data.List.Induction
import Mathlib.Data.List.Nodup
import PlanPlayback.Proofs.Playback.Visit

/-!
# Every effect is applied once

A `History` follows the visits of a schedule and writes down, after each of them, the events that
are completed now and were not before.  The fluents are always those that result from settling
these events in the order in which they were written down: whatever the times of the visits, no
event is settled twice and none is settled before it is completed.

The order is told from the states of the events alone.  The proof has three parts:

* positions: settling the events that satisfy a condition is settling their positions
  (`settleAt_positions`);
* the invariant `History.IsFaithful`, which a visit preserves (`History.IsFaithful.next`);
* all histories of events that have not begun, `History.isFaithful_ofVisits`.
-/

namespace PlanPlayback

/-! ## Positions -/

/-- The positions of the events that satisfy a condition, in the order of registration. -/
def positions (p : Event → Bool) (events : List Event) : List Nat :=
  (List.range events.length).filter fun i => events[i]?.any p

/-- Whether the event at a position is completed. -/
def isCompletedAt (events : List Event) (i : Nat) : Bool :=
  events[i]?.any Event.isCompleted

/-- The effects of the event at a position. -/
def effectsAt (events : List Event) (i : Nat) : List Effect :=
  events[i]?.elim [] Event.effects

/-- The fluents after the effects of the events at some positions, one event after the other. -/
def Store.settleAt (events : List Event) (s : Store) (order : List Nat) : Store :=
  order.foldl (fun s i => (s.applyTogether (effectsAt events i)).store) s

theorem mem_positions {p : Event → Bool} {events : List Event} {i : Nat} :
    i ∈ positions p events ↔ events[i]?.any p = true := by
  rw [positions, List.mem_filter, List.mem_range]
  refine ⟨fun h => h.2, fun h => ⟨?_, h⟩⟩
  by_contra hlength
  rw [List.getElem?_eq_none (Nat.not_lt.mp hlength)] at h
  cases h

theorem nodup_positions (p : Event → Bool) (events : List Event) : (positions p events).Nodup :=
  List.nodup_range.filter _

theorem positions_append_singleton (p : Event → Bool) (events : List Event) (e : Event) :
    positions p (events ++ [e]) =
      positions p events ++ if p e then [events.length] else [] := by
  have hbefore : ∀ i ∈ List.range events.length, (events ++ [e])[i]?.any p = events[i]?.any p := by
    intro i hi
    rw [List.getElem?_append_left (List.mem_range.mp hi)]
  have hlast : (events ++ [e])[events.length]? = some e := List.getElem?_concat_length
  rw [positions, List.length_append, List.length_singleton, List.range_succ, List.filter_append,
    List.filter_congr hbefore, List.filter_singleton, hlast, positions]
  congr 1
  cases hp : p e <;> rw [Option.any_some, hp] <;> rfl

theorem effectsAt_append_of_lt {events : List Event} {i : Nat} (h : i < events.length) (e : Event) :
    effectsAt (events ++ [e]) i = effectsAt events i := by
  rw [effectsAt, effectsAt, List.getElem?_append_left h]

/-- Settling events is settling their positions. -/
theorem settleAt_positions (p : Event → Bool) (events : List Event) (s : Store) :
    s.settleAt events (positions p events) = (events.filter p).foldl Store.settle s := by
  induction events using List.reverseRecOn with
  | nil => rfl
  | append_singleton events e ih =>
    -- the positions before the last one are those of the events before the last one
    have hbefore : s.settleAt (events ++ [e]) (positions p events) =
        s.settleAt events (positions p events) := by
      refine List.foldl_ext _ _ _ fun s i hi => ?_
      have hlength : i < events.length := List.mem_range.mp (List.mem_filter.mp hi).1
      rw [effectsAt_append_of_lt hlength]
    rw [positions_append_singleton, List.filter_append, List.foldl_append, ← ih, ← hbefore,
      Store.settleAt, List.foldl_append, List.filter_singleton]
    cases p e with
    | false => rfl
    | true =>
      have hlast : effectsAt (events ++ [e]) events.length = e.effects := by
        rw [effectsAt, List.getElem?_concat_length]
        rfl
      change (Store.applyTogether _ (effectsAt (events ++ [e]) events.length)).store = _
      rw [hlast]
      rfl

/-- Effects do not depend on how far events have got. -/
theorem effectsAt_congr {events others : List Event}
    (h : events.map Event.rewind = others.map Event.rewind) :
    effectsAt events = effectsAt others := by
  have hrewind : ∀ events : List Event, ∀ i,
      effectsAt events i = effectsAt (events.map Event.rewind) i := by
    intro events i
    rw [effectsAt, effectsAt, List.getElem?_map]
    cases events[i]? <;> rfl
  funext i
  rw [hrewind events, h, ← hrewind others]

/-! ## Histories -/

/-- The positions of the events that are completed after a visit and were not before. -/
def newlyCompleted (before after : List Event) : List Nat :=
  (List.range after.length).filter fun i => isCompletedAt after i && !isCompletedAt before i

/-- What has become of a schedule: its events, the fluents, how many completions the visits have
reported, and the positions of the completed events, in the order in which they were completed. -/
structure History where
  events : List Event
  store : Store
  reported : Nat
  order : List Nat
  deriving Repr

namespace History

/-- A history with one visit more. -/
def next (h : History) (v : Visit) : History :=
  let pass := Schedule.visit ⟨h.events⟩ v h.store
  { events := pass.events
    store := pass.store
    reported := h.reported + pass.completed
    order := h.order ++ newlyCompleted h.events pass.events }

/-- The history of some visits. -/
def ofVisits (events : List Event) (store : Store) (visits : List Visit) : History :=
  visits.foldl next ⟨events, store, 0, []⟩

/-- The fluents are those that result from settling the completed events in the order in which they
were completed. -/
structure IsFaithful (events : List Event) (store : Store) (h : History) : Prop where
  rewound : h.events.map Event.rewind = events.map Event.rewind
  settled : h.store = store.settleAt events h.order
  nodup : h.order.Nodup
  completed : ∀ i, i ∈ h.order ↔ isCompletedAt h.events i = true
  reported : h.reported = h.events.countP Event.isCompleted

variable {events : List Event} {store : Store}

theorem isCompletedAt_map_after (v : Visit) (events : List Event) (i : Nat) :
    isCompletedAt (events.map v.after) i =
      (isCompletedAt events i || events[i]?.any v.completes) := by
  rw [isCompletedAt, isCompletedAt, List.getElem?_map]
  cases events[i]? with
  | none => rfl
  | some e => exact v.isCompleted_after e

/-- What is written down after a visit is what the visit completes. -/
theorem newlyCompleted_map_after (v : Visit) (events : List Event) :
    newlyCompleted events (events.map v.after) = positions v.completes events := by
  rw [newlyCompleted, List.length_map, positions]
  refine List.filter_congr fun i _ => ?_
  rw [isCompletedAt_map_after, isCompletedAt]
  cases events[i]? with
  | none => rfl
  | some e =>
    change ((e.isCompleted || v.completes e) && !e.isCompleted) = v.completes e
    cases hcompleted : e.isCompleted with
    | false => rw [Bool.false_or, Bool.not_false, Bool.and_true]
    | true => rw [v.completes_of_isCompleted hcompleted, Bool.not_true, Bool.and_false]

theorem countP_map_after (v : Visit) (events : List Event) :
    (events.map v.after).countP Event.isCompleted =
      events.countP Event.isCompleted + events.countP v.completes := by
  induction events with
  | nil => rfl
  | cons e rest ih =>
    rw [List.map_cons, List.countP_cons, List.countP_cons, List.countP_cons, ih,
      v.isCompleted_after]
    cases hcompleted : e.isCompleted with
    | false =>
      rw [Bool.false_or]
      simp only [Bool.false_eq_true, if_false]
      omega
    | true =>
      rw [v.completes_of_isCompleted hcompleted]
      simp only [Bool.true_or, Bool.false_eq_true, if_true, if_false]
      omega

/-- A visit preserves the invariant: it completes events that were not completed, and settles them
in the order in which they are written down. -/
theorem IsFaithful.next {h : History} (hfaithful : h.IsFaithful events store) (v : Visit) :
    (h.next v).IsFaithful events store := by
  obtain ⟨hevents, hstore, hreported⟩ := Schedule.visit_spec ⟨h.events⟩ v h.store
  have horder : newlyCompleted h.events (Schedule.visit ⟨h.events⟩ v h.store).events =
      positions v.completes h.events := by
    rw [hevents]
    exact newlyCompleted_map_after v h.events
  refine ⟨?_, ?_, ?_, ?_, ?_⟩
  · change (Schedule.visit ⟨h.events⟩ v h.store).events.map Event.rewind = _
    rw [hevents, List.map_map, ← hfaithful.rewound]
    exact List.map_congr_left fun e _ => v.rewind_after e
  · change (Schedule.visit ⟨h.events⟩ v h.store).store = store.settleAt events (h.order ++ _)
    rw [hstore, ← settleAt_positions, horder, Store.settleAt, Store.settleAt, List.foldl_append,
      effectsAt_congr hfaithful.rewound, hfaithful.settled, Store.settleAt]
  · change (h.order ++ _).Nodup
    rw [horder]
    -- what the visit completes had not been completed before
    refine hfaithful.nodup.append (nodup_positions _ _) fun i hi hi' => ?_
    obtain ⟨e, hget, hcompleted⟩ := (Option.any_eq_true _ _).mp ((hfaithful.completed i).mp hi)
    obtain ⟨e', hget', hcompletes⟩ := (Option.any_eq_true _ _).mp (mem_positions.mp hi')
    obtain rfl : e = e' := Option.some_inj.mp (hget.symm.trans hget')
    rw [v.completes_of_isCompleted hcompleted] at hcompletes
    cases hcompletes
  · intro i
    change i ∈ h.order ++ _ ↔ isCompletedAt (Schedule.visit ⟨h.events⟩ v h.store).events i = true
    rw [horder, hevents, List.mem_append, mem_positions, hfaithful.completed,
      isCompletedAt_map_after, Bool.or_eq_true]
  · change h.reported + (Schedule.visit ⟨h.events⟩ v h.store).completed =
      (Schedule.visit ⟨h.events⟩ v h.store).events.countP Event.isCompleted
    rw [hreported, hevents, hfaithful.reported, countP_map_after]

/-- All events are still to be completed. -/
theorem isFaithful_start (hpending : ∀ e ∈ events, e.status = .pending) :
    (⟨events, store, 0, []⟩ : History).IsFaithful events store := by
  have hnone : ∀ e ∈ events, e.isCompleted = false := by
    intro e he
    rw [Event.isCompleted, hpending e he]
    rfl
  refine ⟨rfl, rfl, List.nodup_nil, fun i => ?_, ?_⟩
  · refine ⟨fun h => absurd h List.not_mem_nil, fun h => ?_⟩
    obtain ⟨e, hget, hcompleted⟩ := (Option.any_eq_true _ _).mp h
    rw [hnone e (List.mem_of_getElem? hget)] at hcompleted
    cases hcompleted
  · exact (List.countP_eq_zero.mpr fun e he =>
      Bool.eq_false_iff.mp (hnone e he)).symm

theorem isFaithful_ofVisits (store : Store) (hpending : ∀ e ∈ events, e.status = .pending)
    (visits : List Visit) :
    (ofVisits events store visits).IsFaithful events store := by
  have hrun : ∀ h : History, h.IsFaithful events store →
      (visits.foldl next h).IsFaithful events store := by
    induction visits with
    | nil => exact fun h hfaithful => hfaithful
    | cons v rest ih => exact fun h hfaithful => ih (h.next v) (hfaithful.next v)
  exact hrun _ (isFaithful_start hpending)

/-- **Every effect is applied once, when its event is completed.**  The events of a schedule have
not begun, and updates and jumps visit it, at any times and in any order.  Then the fluents are
those that result from applying the effects of exactly the completed events, each once, in the order
in which the visits completed them; the visits report as many completions as there are completed
events, and nothing about an event has changed but how far it has got. -/
theorem effects_applied_exactly_once (events : List Event) (store : Store) (visits : List Visit)
    (hpending : ∀ e ∈ events, e.status = .pending) :
    (ofVisits events store visits).store =
        store.settleAt events (ofVisits events store visits).order ∧
      (ofVisits events store visits).order.Nodup ∧
      (∀ i, i ∈ (ofVisits events store visits).order ↔
        isCompletedAt (ofVisits events store visits).events i = true) ∧
      (ofVisits events store visits).reported =
        Schedule.numberCompleted ⟨(ofVisits events store visits).events⟩ ∧
      (ofVisits events store visits).events.map Event.rewind = events.map Event.rewind := by
  have hfaithful := isFaithful_ofVisits store hpending visits
  exact ⟨hfaithful.settled, hfaithful.nodup, hfaithful.completed, hfaithful.reported,
    hfaithful.rewound⟩

/-- An event that charges a battery during the first second. -/
def charging : Event :=
  { id := "charge:numeric", kind := .numeric, object := "rover", action := "charge", start := 0.0
    duration := 1.0, data := .numeric [⟨"battery(rover)", .increase, .number 5.0⟩] }

/-- An event that doubles the charge of a battery within three seconds. -/
def boosting : Event :=
  { id := "boost:numeric", kind := .numeric, object := "rover", action := "boost", start := 0.0
    duration := 3.0, data := .numeric [⟨"battery(rover)", .scaleUp, .number 2.0⟩] }

/-- An empty battery. -/
def uncharged : Store :=
  ⟨[Fluent.unbounded "battery(rover)" 0.0]⟩

/-- A battery is charged at two seconds and boosted at four, as its events are completed and not as
they are registered, and a jump back in between does not charge it again. -/
theorem charging_applied_exactly_once :
    (∀ e ∈ [boosting, charging], e.status = .pending) ∧
      (ofVisits [boosting, charging] uncharged
        [.update 2.0, .jump 0.0, .update 2.0, .update 4.0]).order = [1, 0] ∧
      (ofVisits [boosting, charging] uncharged
        [.update 2.0, .jump 0.0, .update 2.0, .update 4.0]).store.value? "battery(rover)" =
          some 10.0 := by
  have hpending : ∀ e ∈ [boosting, charging], e.status = .pending := by
    simp [boosting, charging]
  have horder : (ofVisits [boosting, charging] uncharged
      [.update 2.0, .jump 0.0, .update 2.0, .update 4.0]).order = [1, 0] := by
    decide +kernel
  refine ⟨hpending, horder, ?_⟩
  rw [(effects_applied_exactly_once [boosting, charging] uncharged _ hpending).1, horder]
  decide +kernel

end History

end PlanPlayback
