import Mathlib.Data.List.Sort
import PlanPlayback.Proofs.Playback.ClockBounds
import PlanPlayback.Proofs.Playback.Completion
import PlanPlayback.Proofs.Playback.Control
import PlanPlayback.Proofs.Playback.Loading
import PlanPlayback.Proofs.Playback.Progress

/-!
# Jumping and replaying

A player reaches a time of its plan by one jump, or by updates at times that lead up to it.  Both
leave the same events in the same states.  The fluents are another matter: a jump settles the events
in the order in which they are registered, and updates settle them tick by tick, in the order in
which they end.

* `completionOrder` is the order in which updates settle events, told from the starts and the
  durations of the events alone;
* `History.replay_spec`: what updates make of the events of a plan, and in which order;
* `pairwise_laterCompletions`: if no event that carries effects overtakes another one, updates settle
  the events that carry effects in the order of registration;
* `Player.seek_eq_replay_iff`: a jump leaves the same fluents as the updates exactly if the two
  orders do.
-/

namespace PlanPlayback

open Binary64

/-! ## The order of completion -/

/-- The positions of the events that are over at one of several times, in the order in which they
are over; some times have been before. -/
def laterCompletions (events : List Event) (past : List Float) : List Float → List Nat
  | [] => []
  | time :: rest =>
      positions (fun e => e.isOverAt time && !past.any e.isOverAt) events ++
        laterCompletions events (time :: past) rest

/-- The positions of the events that are over at one of several times, in the order in which they
are over. -/
def completionOrder (events : List Event) (times : List Float) : List Nat :=
  laterCompletions events [] times

theorem newlyCompleted_settledBy (events : List Event) (past : List Float) (time : Float) :
    newlyCompleted (events.map (·.settledBy past)) (events.map (·.settledBy (time :: past))) =
      positions (fun e => e.isOverAt time && !past.any e.isOverAt) events := by
  rw [newlyCompleted, List.length_map, positions]
  refine List.filter_congr fun i _ => ?_
  rw [isCompletedAt, isCompletedAt, List.getElem?_map, List.getElem?_map]
  cases events[i]? with
  | none => rfl
  | some e =>
    rw [Option.map_some, Option.map_some, Option.any_some, Option.any_some, Option.any_some,
      Event.isCompleted_settledBy, Event.isCompleted_settledBy, List.any_cons]
    cases e.isOverAt time <;> cases past.any e.isOverAt <;> rfl

theorem mem_laterCompletions {events : List Event} {past times : List Float} {i : Nat} :
    i ∈ laterCompletions events past times ↔
      events[i]?.any (fun e => !past.any e.isOverAt && times.any e.isOverAt) = true := by
  induction times generalizing past with
  | nil =>
    rw [laterCompletions]
    cases events[i]? with
    | none => exact ⟨nofun, nofun⟩
    | some e =>
      rw [Option.any_some, List.any_nil, Bool.and_false]
      exact ⟨nofun, nofun⟩
  | cons time rest ih =>
    rw [laterCompletions, List.mem_append, mem_positions, ih]
    cases events[i]? with
    | none => exact ⟨fun h => h.elim id id, Or.inl⟩
    | some e =>
      simp only [Option.any_some, List.any_cons]
      cases e.isOverAt time <;> cases past.any e.isOverAt <;> cases rest.any e.isOverAt <;> decide

/-- An event without effects leaves the fluents as they are. -/
theorem settleAt_filter (events : List Event) (s : Store) (order : List Nat) :
    s.settleAt events (order.filter fun i => !(effectsAt events i).isEmpty) =
      s.settleAt events order := by
  induction order generalizing s with
  | nil => rfl
  | cons i rest ih =>
    rw [List.filter_cons]
    cases heffects : effectsAt events i with
    | nil =>
      have hsame : (s.applyTogether (effectsAt events i)).store = s := by
        rw [heffects]
        rfl
      refine (ih s).trans ?_
      change Store.settleAt events s rest =
        Store.settleAt events (s.applyTogether (effectsAt events i)).store rest
      rw [hsame]
    | cons effect others => exact ih _

/-- Whether every event that carries effects and is over at one of several times finds the events
registered before it over, as far as they carry effects and are over at the end. -/
def NoneOvertakes (events : List Event) (times : List Float) (last : Float) : Prop :=
  ∀ time ∈ times, events.Pairwise fun first second =>
    first.effects ≠ [] → second.effects ≠ [] → first.isOverAt last = true →
      second.isOverAt time = true → first.isOverAt time = true

/-- If none overtakes, the events that carry effects are over in the order of registration. -/
theorem pairwise_laterCompletions {events : List Event} {past times : List Float} {last : Float}
    (hnone : NoneOvertakes events times last)
    (hlast : ∀ time ∈ times, ∀ e ∈ events, e.isOverAt time = true → e.isOverAt last = true) :
    ((laterCompletions events past times).filter fun i => !(effectsAt events i).isEmpty).Pairwise
      (· < ·) := by
  induction times generalizing past with
  | nil => exact List.Pairwise.nil
  | cons time rest ih =>
    obtain ⟨hfirst, hrest⟩ := List.forall_mem_cons.mp hnone
    obtain ⟨hfirst', hrest'⟩ := List.forall_mem_cons.mp hlast
    rw [laterCompletions, List.filter_append, List.pairwise_append]
    refine ⟨(List.pairwise_lt_range.filter _).filter _, ih hrest hrest', fun i hi j hj => ?_⟩
    obtain ⟨hi, hieffects⟩ := List.mem_filter.mp hi
    obtain ⟨hj, hjeffects⟩ := List.mem_filter.mp hj
    obtain ⟨e, hgeti, hi⟩ := (Option.any_eq_true _ _).mp (mem_positions.mp hi)
    obtain ⟨e', hgetj, hj⟩ := (Option.any_eq_true _ _).mp (mem_laterCompletions.mp hj)
    have hover : e.isOverAt time = true := (Bool.and_eq_true_iff.mp hi).1
    obtain ⟨hbefore, hafter⟩ := Bool.and_eq_true_iff.mp hj
    have hnot_over : e'.isOverAt time = false := by
      rw [List.any_cons, Bool.not_or, Bool.and_eq_true, Bool.not_eq_true'] at hbefore
      exact hbefore.1
    have hover_last : e'.isOverAt last = true := by
      obtain ⟨t, ht, hover'⟩ := List.any_eq_true.mp hafter
      exact hrest' t ht e' (List.mem_of_getElem? hgetj) hover'
    have hcarries : ∀ {k : Nat} {e : Event}, events[k]? = some e →
        (!(effectsAt events k).isEmpty) = true → e.effects ≠ [] := by
      intro k e hget hne hempty
      rw [effectsAt, hget, Option.elim_some, hempty] at hne
      cases hne
    -- the later event would have been over as well, had it been registered first
    by_contra hle
    rcases (Nat.le_of_not_lt hle).eq_or_lt with rfl | hlt
    · rw [hgeti] at hgetj
      obtain rfl := Option.some_inj.mp hgetj
      rw [hover] at hnot_over
      cases hnot_over
    · obtain ⟨hilength, hgeti'⟩ := List.getElem?_eq_some_iff.mp hgeti
      obtain ⟨hjlength, hgetj'⟩ := List.getElem?_eq_some_iff.mp hgetj
      have hstill := List.pairwise_iff_getElem.mp hfirst j i hjlength hilength hlt
      rw [hgeti', hgetj'] at hstill
      have hover' : e'.isOverAt time = true :=
        hstill (hcarries hgetj hjeffects) (hcarries hgeti hieffects) hover_last hover
      rw [hover'] at hnot_over
      cases hnot_over

namespace History

/-- Updates at times that do not go back, after visits at some times. -/
theorem foldl_update_spec {events : List Event} {past : List Float} {h : History}
    (hevents : h.events = events.map (·.settledBy past)) {times : List Float}
    (hsorted : times.Pairwise (· ≤ ·)) (hpast : ∀ last ∈ past.head?, ∀ time ∈ times, last ≤ time) :
    ((times.map Visit.update).foldl next h).events =
        events.map (·.settledBy (times.reverse ++ past)) ∧
      ((times.map Visit.update).foldl next h).order =
        h.order ++ laterCompletions events past times := by
  induction times generalizing past h with
  | nil => exact ⟨hevents, (List.append_nil _).symm⟩
  | cons time rest ih =>
    obtain ⟨hfirst, hrest⟩ := List.pairwise_cons.mp hsorted
    have hnext : (h.next (.update time)).events = events.map (·.settledBy (time :: past)) := by
      change (Schedule.visit ⟨h.events⟩ (.update time) h.store).events = _
      rw [(Schedule.visit_spec ⟨h.events⟩ (.update time) h.store).1, hevents, List.map_map]
      exact List.map_congr_left fun e _ => e.advanced_settledBy fun last hlast =>
        hpast last hlast time List.mem_cons_self
    have horder : (h.next (.update time)).order =
        h.order ++ positions (fun e => e.isOverAt time && !past.any e.isOverAt) events := by
      change h.order ++ newlyCompleted h.events (h.next (.update time)).events = _
      rw [hnext, hevents, newlyCompleted_settledBy]
    have hlater : ∀ last ∈ (time :: past).head?, ∀ t ∈ rest, last ≤ t := fun last hlast =>
      Option.mem_some.mp hlast ▸ hfirst
    obtain ⟨ihevents, ihorder⟩ := ih hnext hrest hlater
    refine ⟨?_, ?_⟩
    · rw [List.map_cons, List.foldl_cons, ihevents, List.reverse_cons, List.append_assoc]
      rfl
    · rw [List.map_cons, List.foldl_cons, ihorder, horder, laterCompletions, List.append_assoc]

variable {events : List Event}

theorem pending_of_rewind (hrewind : ∀ e ∈ events, e.rewind = e) :
    ∀ e ∈ events, e.status = .pending := fun e he => by
    rw [← hrewind e he]
    rfl

/-- What updates make of events that have not begun, and in which order. -/
theorem replay_spec (store : Store) (hrewind : ∀ e ∈ events, e.rewind = e) {times : List Float}
    (hsorted : times.Pairwise (· ≤ ·)) :
    (ofVisits events store (times.map .update)).events =
        events.map (·.settledBy times.reverse) ∧
      (ofVisits events store (times.map .update)).store =
        store.settleAt events (completionOrder events times) := by
  have hstart : events = events.map (·.settledBy []) := (Event.map_settledBy_nil hrewind).symm
  have hfaithful := isFaithful_ofVisits store (pending_of_rewind hrewind)
    (times.map .update)
  obtain ⟨hevents, horder⟩ := foldl_update_spec (h := ⟨events, store, 0, []⟩) hstart hsorted nofun
  rw [List.append_nil] at hevents
  exact ⟨hevents, hfaithful.settled.trans (congrArg _ horder)⟩

/-- What a jump makes of events that have not begun, and in which order. -/
theorem jump_spec (store : Store) (hrewind : ∀ e ∈ events, e.rewind = e) (time : Float) :
    (ofVisits events store [.jump time]).events = events.map (·.settledBy [time]) ∧
      (ofVisits events store [.jump time]).store =
        store.settleAt events (positions (·.isOverAt time) events) := by
  have hstart : events = events.map (·.settledBy []) := (Event.map_settledBy_nil hrewind).symm
  have hfaithful := isFaithful_ofVisits store (pending_of_rewind hrewind) [.jump time]
  have hevents : (ofVisits events store [.jump time]).events = events.map (·.settledBy [time]) := by
    change (Schedule.visit ⟨events⟩ (.jump time) store).events = _
    rw [(Schedule.visit_spec ⟨events⟩ (.jump time) store).1]
    conv_lhs => rw [hstart, List.map_map]
    exact List.map_congr_left fun e _ => e.advanced_forget_settledBy [] time
  have horder : (ofVisits events store [.jump time]).order =
      positions (·.isOverAt time) events := by
    have hnewly := newlyCompleted_settledBy events [] time
    rw [Event.map_settledBy_nil hrewind, ← hevents] at hnewly
    simp only [List.any_nil, Bool.not_false, Bool.and_true] at hnewly
    exact hnewly
  exact ⟨hevents, hfaithful.settled.trans (congrArg _ horder)⟩

end History

/-! ## A jump and a replay -/

/-- If none overtakes, the updates settle the events as a jump does. -/
theorem settleAt_completionOrder {events : List Event} (s : Store) {times : List Float}
    {last : Float}
    (hfinite : ∀ time ∈ times, time.isFinite = true) (hlast : last ∈ times)
    (hle : ∀ time ∈ times, time ≤ last) (hnone : NoneOvertakes events times last) :
    s.settleAt events (completionOrder events times) =
      s.settleAt events (positions (·.isOverAt last) events) := by
  have hover : ∀ time ∈ times, ∀ e ∈ events, e.isOverAt time = true → e.isOverAt last = true :=
    fun time htime e _ =>
      Event.isOverAt_mono (hfinite time htime) (hfinite last hlast) (hle time htime)
  -- the same positions in the same order: both lists are increasing
  have hsame : (completionOrder events times).filter (fun i => !(effectsAt events i).isEmpty) =
      (positions (·.isOverAt last) events).filter fun i => !(effectsAt events i).isEmpty := by
    refine List.Pairwise.eq_of_mem_iff (pairwise_laterCompletions hnone hover)
      ((List.pairwise_lt_range.filter _).filter _) fun i => ?_
    rw [List.mem_filter, List.mem_filter, completionOrder, mem_laterCompletions, mem_positions]
    cases events[i]? with
    | none => exact Iff.rfl
    | some e =>
      rw [Option.any_some, Option.any_some, List.any_nil, Bool.not_false, Bool.true_and,
        e.any_isOverAt hfinite hlast hle]
  rw [← settleAt_filter, hsame, settleAt_filter]

/-- The last of several times that do not go back is the latest. -/
theorem le_getLast {times : List Float} {last : Float} (hsorted : times.Pairwise (· ≤ ·))
    (hnonneg : ∀ time ∈ times, 0.0 ≤ time) (hlast : times.getLast? = some last) :
    ∀ time ∈ times, time ≤ last := by
  obtain ⟨earlier, rfl⟩ := List.getLast?_eq_some_iff.mp hlast
  have hlast_mem : last ∈ earlier ++ [last] := List.mem_append_right _ List.mem_cons_self
  intro time htime
  rcases List.mem_append.mp htime with htime | htime
  · exact (List.pairwise_append.mp hsorted).2.2 time htime last List.mem_cons_self
  · obtain rfl := List.mem_singleton.mp htime
    exact Binary64.le_refl (le_iff.mp (hnonneg time hlast_mem)).2.1

namespace Player

/-- **A jump leaves the events as updates do, and the fluents if the order of completion makes no
difference.**  The plan has just been loaded, and the times lead from its beginning to a time within
it.  A jump and updates at the times leave the same events in the same states.  They leave the same
fluents if and only if the effects of the completed events do, in the order of registration and in
the order of completion; this is so if no event that carries effects overtakes another one. -/
theorem seek_eq_replay_iff (p : Player) (plan : Plan) (context : Context) (last : Float)
    (times : List Float) (hnonneg : ∀ time ∈ times, 0.0 ≤ time) (hsorted : times.Pairwise (· ≤ ·))
    (hlast : times.getLast? = some last)
    (htotal : last ≤ (p.load plan context).1.clock.total) :
    let loaded := (p.load plan context).1
    let events := loaded.schedule.events
    let sought := (loaded.seek last).1
    let replayed := History.ofVisits events loaded.store (times.map .update)
    sought.schedule.events = replayed.events ∧
      (sought.store = replayed.store ↔
        loaded.store.settleAt events (positions (·.isOverAt last) events) =
          loaded.store.settleAt events (completionOrder events times)) ∧
      (NoneOvertakes events times last → sought.store = replayed.store) := by
  intro loaded events sought replayed
  have hrewind : ∀ e ∈ events, e.rewind = e := fun e he => Schedule.rewind_of_mem he
  have hlength : loaded.clock.total.isFinite = true := by
    change (p.clock.load plan.totalDuration).1.total.isFinite = true
    rw [Clock.load_eq]
    exact (Clock.lengthOf_spec plan.totalDuration).1
  have hmem : last ∈ times := List.mem_of_getLast? hlast
  have hle : ∀ time ∈ times, time ≤ last := le_getLast hsorted hnonneg hlast
  have hfinite : ∀ time ∈ times, time.isFinite = true := fun time htime =>
    isFinite_of_between (by decide) hlength (hnonneg time htime)
      (Binary64.le_trans (hle time htime) htotal)
  have htime : (loaded.clock.seek last).time = last :=
    Clock.time_seek (hfinite last hmem) (hnonneg last hmem) htotal
  have hpass : loaded.schedule.seek (loaded.clock.seek last).time loaded.store =
      Schedule.visit ⟨events⟩ (.jump last) loaded.store := by
    rw [htime]
    rfl
  obtain ⟨hjump_events, hjump_store⟩ := History.jump_spec loaded.store hrewind last
  have hevents : sought.schedule.events = events.map (·.settledBy [last]) :=
    (congrArg Pass.events hpass).trans hjump_events
  have hstore : sought.store = loaded.store.settleAt events (positions (·.isOverAt last) events) :=
    (congrArg Pass.store hpass).trans hjump_store
  obtain ⟨hreplay_events, hreplay_store⟩ := History.replay_spec loaded.store hrewind hsorted
  refine ⟨?_, ?_, fun hnone => ?_⟩
  -- all events are completed that were over at one of the times, hence at the last one
  · obtain ⟨earlier, hearlier⟩ := List.getLast?_eq_some_iff.mp hlast
    rw [hevents, hreplay_events]
    refine List.map_congr_left fun e _ => ?_
    have hany := e.any_isOverAt hfinite hmem hle
    rw [← List.any_reverse] at hany
    rw [hearlier, List.reverse_append, List.reverse_singleton, List.singleton_append] at hany ⊢
    rw [Event.settledBy, Event.settledBy, hany, List.any_cons, List.any_nil, Bool.or_false]
  · rw [hstore, hreplay_store]
  · rw [hstore, hreplay_store, settleAt_completionOrder loaded.store hfinite hmem hle hnone]

/-- Filling takes one second and draining another. -/
def fillThenDrain : Plan :=
  { dialect := .numeric
    actions :=
      [{ Action.make "fill" ["tank"] 0.0 1.0 with effects := [⟨"level(tank)", .increase, 8.0⟩] },
        { Action.make "drain" ["tank"] 1.0 1.0 with effects := [⟨"level(tank)", .assign, 0.0⟩] }]
    totalDuration := 2.0, cost := 2.0, statistics := {} }

/-- Actions that follow one another are replayed by a jump. -/
theorem seek_eq_replay_fillThenDrain :
    ((∀ time ∈ [1.0, 2.0], (0.0 : Float) ≤ time) ∧ ([1.0, 2.0] : List Float).Pairwise (· ≤ ·) ∧
        ([1.0, 2.0] : List Float).getLast? = some 2.0 ∧
        2.0 ≤ ((ofSettings {}).load fillThenDrain {}).1.clock.total) ∧
      (((ofSettings {}).load fillThenDrain {}).1.seek 2.0).1.store =
        (History.ofVisits ((ofSettings {}).load fillThenDrain {}).1.schedule.events
          ((ofSettings {}).load fillThenDrain {}).1.store [.update 1.0, .update 2.0]).store := by
  have hnonneg : ∀ time ∈ [1.0, 2.0], (0.0 : Float) ≤ time := by decide
  have hsorted : ([1.0, 2.0] : List Float).Pairwise (· ≤ ·) := by decide
  have htotal : 2.0 ≤ ((ofSettings {}).load fillThenDrain {}).1.clock.total := by decide +kernel
  have hordered : ∀ time ∈ [1.0, 2.0],
      ((ofSettings {}).load fillThenDrain {}).1.schedule.events.Pairwise fun first second =>
        second.isOverAt time = true → first.isOverAt time = true := by decide +kernel
  have hnone : NoneOvertakes ((ofSettings {}).load fillThenDrain {}).1.schedule.events
      [1.0, 2.0] 2.0 := fun time htime =>
    (hordered time htime).imp fun hover _ _ _ => hover
  exact ⟨⟨hnonneg, hsorted, rfl, htotal⟩, (seek_eq_replay_iff (ofSettings {}) fillThenDrain {} 2.0
    [1.0, 2.0] hnonneg hsorted rfl htotal).2.2 hnone⟩

/-- A tank is set to its capacity by an action that takes ten seconds; meanwhile it is filled. -/
def fillDuringReset : Plan :=
  { dialect := .numeric
    actions :=
      [{ Action.make "level" ["tank"] 0.0 10.0 with effects := [⟨"level(tank)", .assign, 5.0⟩] },
        { Action.make "fill" ["tank"] 1.0 1.0 with effects := [⟨"level(tank)", .increase, 1.0⟩] }]
    totalDuration := 10.0, cost := 10.0, statistics := {} }

/-- A jump and a replay may leave different fluents: the action that is registered first sets the
level, and the other one, which is over earlier, adds to it. -/
theorem not_seek_eq_replay :
    ¬∀ (p : Player) (plan : Plan) (context : Context) (last : Float) (times : List Float),
      (∀ time ∈ times, 0.0 ≤ time) → times.Pairwise (· ≤ ·) → times.getLast? = some last →
        last ≤ (p.load plan context).1.clock.total →
          ((p.load plan context).1.seek last).1.store =
            (History.ofVisits (p.load plan context).1.schedule.events (p.load plan context).1.store
              (times.map .update)).store := by
  intro h
  have hsame := h (ofSettings {}) fillDuringReset {} 10.0 [2.0, 10.0] (by decide) (by decide) rfl
    (by decide +kernel)
  have hjump : ((((ofSettings {}).load fillDuringReset {}).1.seek 10.0).1.store.value?
      "level(tank)" == some 6.0) = true := by decide +kernel
  have hreplay : ((History.ofVisits ((ofSettings {}).load fillDuringReset {}).1.schedule.events
      ((ofSettings {}).load fillDuringReset {}).1.store [.update 2.0, .update 10.0]).store.value?
      "level(tank)" == some 6.0) = false := by decide +kernel
  rw [hsame] at hjump
  exact Bool.noConfusion (hjump.symm.trans hreplay)

end Player

end PlanPlayback
