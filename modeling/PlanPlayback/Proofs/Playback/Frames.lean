import PlanPlayback.Playback.Player
import PlanPlayback.Proofs.Plan.Assembly

/-!
# What a frame shows

A frame shows an action that is running and the action that comes next.  Both are found by searching
the actions of the plan from the front.  For the running one this is all there is to it: the search
asks for an action that has started and not ended, and it finds the first one in the order of the
plan.  For the next one the search asks only for a start after the point in time.  That it does not
find just any such action but one that starts before all others (`Plan.StartsNext`) is owed to the
order of the plan.

Actions may start together, overlap or take no time at all.  Where several start next, the first one
in the order of the plan is shown, and an action that takes no time is next but never running.
-/

namespace PlanPlayback

open Binary64

/-! ## Running actions -/

namespace Action

/-- An action that has started and not ended. -/
def IsRunningAt (a : Action) (time : Float) : Prop :=
  a.start ≤ time ∧ time < a.finish

variable {a : Action} {time : Float}

theorem contains_iff : a.contains time = true ↔ a.IsRunningAt time := by
  rw [contains, Bool.and_eq_true, decide_eq_true_iff, decide_eq_true_iff, IsRunningAt]

/-- The status is decided by two comparisons of its own.  They are those of the search, unless the
action starts at what is no number. -/
theorem statusAt_eq_active_iff (ha : IsNumber a.start) :
    a.statusAt time = .active ↔ a.IsRunningAt time := by
  rw [statusAt, IsRunningAt]
  split_ifs with hpending hactive
  · have hstarted : ¬a.start ≤ time := fun hle =>
      (Binary64.not_lt (lt_iff.mp hpending).1 ha).mpr hle hpending
    simp [hstarted]
  · have htime : IsNumber time := (lt_iff.mp hactive).1
    simp [hactive, (Binary64.not_lt htime ha).mp hpending]
  · simp [hactive]

end Action

namespace Plan

/-- The first action of a plan, in its order, with a property. -/
structure IsFirst (p : Plan) (P : Action → Prop) (a : Action) : Prop where
  holds : P a
  leading : ∃ before after, p.actions = before ++ a :: after ∧ ∀ b ∈ before, ¬P b

/-- An action that starts after a point in time, where no action does so that starts before it. -/
structure StartsNext (p : Plan) (time : Float) (a : Action) : Prop where
  later : time < a.start
  least : ∀ b ∈ p.actions, time < b.start → a.start ≤ b.start

variable {p : Plan} {time : Float} {a : Action}

theorem actionAt?_eq_none_iff :
    p.actionAt? time = none ↔ ∀ a ∈ p.actions, ¬a.IsRunningAt time := by
  simp only [actionAt?, List.find?_eq_none, Action.contains_iff]

theorem actionAt?_eq_some_iff :
    p.actionAt? time = some a ↔ p.IsFirst (fun b => b.IsRunningAt time) a := by
  rw [actionAt?, List.find?_eq_some_iff_append, Action.contains_iff]
  simp only [Bool.not_eq_true', ← Bool.not_eq_true, Action.contains_iff]
  exact ⟨fun h => ⟨h.1, h.2⟩, fun h => ⟨h.holds, h.leading⟩⟩

theorem statusAt_eq_active_iff_mem_activeAt (ha : a ∈ p.actions) (hstart : IsNumber a.start) :
    a.statusAt time = .active ↔ a ∈ p.activeAt time := by
  rw [Action.statusAt_eq_active_iff hstart, activeAt, List.mem_filter, Action.contains_iff]
  exact ⟨fun hrunning => ⟨ha, hrunning⟩, fun hmem => hmem.2⟩

/-! ## The next action -/

theorem nextAfter?_eq_none_iff :
    p.nextAfter? time = none ↔ ∀ a ∈ p.actions, ¬time < a.start := by
  simp only [nextAfter?, List.find?_eq_none, decide_eq_true_iff]

section

variable (hordered : p.actions.Pairwise
  fun a b => IsNumber a.start → IsNumber b.start → a.start ≤ b.start)

include hordered

/-- Of two actions that start after a point in time, the one in front starts no later. -/
theorem start_le_of_split {before after : List Action} (hsplit : p.actions = before ++ a :: after)
    (ha : time < a.start) :
    (∀ b ∈ before, time < b.start → b.start ≤ a.start) ∧
      ∀ b ∈ after, time < b.start → a.start ≤ b.start := by
  have hnumber : IsNumber a.start := (lt_iff.mp ha).2.1
  rw [hsplit, List.pairwise_append, List.pairwise_cons] at hordered
  obtain ⟨-, ⟨hafter, -⟩, hbefore⟩ := hordered
  constructor
  · intro b hb hlater
    exact hbefore b hb a List.mem_cons_self (lt_iff.mp hlater).2.1 hnumber
  · intro b hb hlater
    exact hafter b hb hnumber (lt_iff.mp hlater).2.1

/-- The search for a start after a point in time finds the nearest one. -/
theorem nextAfter?_eq_some_iff :
    p.nextAfter? time = some a ↔ p.IsFirst (p.StartsNext time) a := by
  rw [nextAfter?, List.find?_eq_some_iff_append, decide_eq_true_iff]
  constructor
  · rintro ⟨hlater, before, after, hsplit, hbefore⟩
    have hnot : ∀ b ∈ before, ¬time < b.start := by
      intro b hb
      simpa using hbefore b hb
    refine ⟨⟨hlater, ?_⟩, before, after, hsplit, ?_⟩
    · intro b hb hb_later
      rw [hsplit, List.mem_append, List.mem_cons] at hb
      rcases hb with hb | rfl | hb
      · exact absurd hb_later (hnot b hb)
      · exact Binary64.le_refl (lt_iff.mp hlater).2.1
      · exact (start_le_of_split hordered hsplit hlater).2 b hb hb_later
    · intro b hb hnext
      exact hnot b hb hnext.later
  · rintro ⟨⟨hlater, hleast⟩, before, after, hsplit, hbefore⟩
    refine ⟨hlater, before, after, hsplit, ?_⟩
    intro b hb
    -- an action in front that starts later than the point in time would start next itself
    have hnot : ¬time < b.start := by
      intro hb_later
      have hle : b.start ≤ a.start := (start_le_of_split hordered hsplit hlater).1 b hb hb_later
      have hb_least : ∀ c ∈ p.actions, time < c.start → b.start ≤ c.start := by
        intro c hc hc_later
        exact Binary64.le_trans hle (hleast c hc hc_later)
      exact hbefore b hb ⟨hb_later, hb_least⟩
    simpa using hnot

end

theorem StartsNext.not_between (h : p.StartsNext time a) :
    ∀ b ∈ p.actions, ¬(time < b.start ∧ b.start < a.start) := by
  rintro b hb ⟨hlater, hbefore⟩
  obtain ⟨hb_number, ha_number, -⟩ := lt_iff.mp hbefore
  exact (Binary64.not_lt hb_number ha_number).mpr (h.least b hb hlater) hbefore

/-- **A frame shows the right actions.**  At any point in time, the next action of a plan is the
first of those that start nearest after it, and there is none exactly if no action starts after it.
The running action is the first that has started and not ended, and the status of an action says the
same about it as the list of all running actions does.  No action starts between the point in time
and the start of the next action.  These are the actions that the frame of a player shows. -/
theorem actions_shown_in_frames (dialect : Dialect) (actions : List Action)
    (statistics : Statistics) (time : Float) :
    let p := assemble dialect actions statistics
    (p.nextAfter? time = none ↔ ∀ a ∈ p.actions, ¬time < a.start) ∧
    (∀ a, p.nextAfter? time = some a ↔ p.IsFirst (p.StartsNext time) a) ∧
    (∀ a, p.nextAfter? time = some a →
      ∀ b ∈ p.actions, ¬(time < b.start ∧ b.start < a.start)) ∧
    (p.actionAt? time = none ↔ ∀ a ∈ p.actions, ¬a.IsRunningAt time) ∧
    (∀ a, p.actionAt? time = some a ↔ p.IsFirst (fun b => b.IsRunningAt time) a) ∧
    (∀ a ∈ p.actions, a.start.isNaN = false →
      (a.statusAt time = .active ↔ a ∈ p.activeAt time)) ∧
    ∀ player : Player, player.plan = some p → player.clock.time = time →
      player.frame.next = p.nextAfter? time ∧ player.frame.current = p.actionAt? time := by
  intro p
  have hnext (a : Action) : p.nextAfter? time = some a ↔ p.IsFirst (p.StartsNext time) a :=
    nextAfter?_eq_some_iff pairwise_start_le
  refine ⟨nextAfter?_eq_none_iff, hnext, ?_, actionAt?_eq_none_iff, ?_, ?_, ?_⟩
  · intro a ha
    exact ((hnext a).mp ha).holds.not_between
  · intro a
    exact actionAt?_eq_some_iff
  · intro a ha hstart
    exact statusAt_eq_active_iff_mem_activeAt ha (isNaN_eq_false_iff.mp hstart)
  · rintro player hplan rfl
    simp only [Player.frame, hplan, Option.bind_some, and_self]

/-- Two actions start together while a third is running, and one of the two takes no time. -/
theorem loading_shown_in_frames :
    let load := Action.make "load" [] 1.0 0.0
    let move := Action.make "move" [] 1.0 2.0
    let wait := Action.make "wait" [] 0.0 2.5
    let p := assemble .temporal [load, move, wait] {}
    let player : Player := { Player.ofSettings {} with
      clock := { Clock.ofSettings {} with time := 0.5 }, plan := some p }
    (player.plan = some p ∧ player.clock.time = 0.5) ∧
    (∃ a, player.frame.next = some a ∧ a.name = "load" ∧ p.IsFirst (p.StartsNext 0.5) a ∧
      ∀ b ∈ p.actions, ¬(0.5 < b.start ∧ b.start < a.start)) ∧
    (∃ a, player.frame.current = some a ∧ a.name = "wait" ∧
      p.IsFirst (fun b => b.IsRunningAt 0.5) a) ∧
    ∃ a ∈ p.actions, a.start.isNaN = false ∧ a.name = "wait" ∧ a ∈ p.activeAt 0.5 := by
  intro load move wait p player
  obtain ⟨-, hnext, hbetween, -, hcurrent, hstatus, hframe⟩ :=
    actions_shown_in_frames .temporal [load, move, wait] {} 0.5
  obtain ⟨hframe_next, hframe_current⟩ := hframe player rfl rfl
  have hactions : p.actions = numbered 0 [wait, load, move] := by
    have htie : load.place ≤ move.place := by decide +kernel
    have hlate : ¬load.place ≤ wait.place := by decide +kernel
    have hsorted : sorted [load, move, wait] = [wait, load, move] := by
      simp [sorted, List.mergeSort, List.MergeSort.Internal.splitInTwo, htie, hlate]
    exact congrArg (numbered 0) hsorted
  have hload : (p.nextAfter? 0.5).any (fun a => a.name == "load") = true := by
    rw [nextAfter?, hactions]
    decide +kernel
  have hwait : (p.actionAt? 0.5).any (fun a => a.name == "wait" && !a.start.isNaN &&
      a.statusAt 0.5 == .active) = true := by
    rw [actionAt?, hactions]
    decide +kernel
  obtain ⟨a, ha, ha_name⟩ := (Option.any_eq_true _ _).mp hload
  obtain ⟨b, hb, hb_facts⟩ := (Option.any_eq_true _ _).mp hwait
  simp only [Bool.and_eq_true, beq_iff_eq, Bool.not_eq_true'] at ha_name hb_facts
  obtain ⟨⟨hb_name, hb_start⟩, hb_active⟩ := hb_facts
  have hb_mem : b ∈ p.actions := List.mem_of_find?_eq_some hb
  refine ⟨⟨rfl, rfl⟩, ⟨a, hframe_next.trans ha, ha_name, (hnext a).mp ha, hbetween a ha⟩,
    ⟨b, hframe_current.trans hb, hb_name, (hcurrent b).mp hb⟩, b, hb_mem, hb_start, hb_name, ?_⟩
  exact (hstatus b hb_mem hb_start).mp hb_active

end Plan

end PlanPlayback
