import Mathlib.Data.List.Sort
import PlanPlayback.Plan.Basic
import PlanPlayback.Proofs.Binary64.Bits
import PlanPlayback.Proofs.Playback.Clamping

/-!
# What is promised of a plan

A plan is made from a list of actions by sorting and numbering them.  `Plan.IsSound` collects what
the callers of a plan rely on: actions start in order, none lasts a negative time, each ends when
its duration is over, and the plan lasts until the last of them has ended.

Sorting goes by the total order of floating-point numbers, in which what is no number has a place as
well (`Action.place`); in the order of numbers it has none.  So a plan is sound exactly if all of its
actions end at a number (`isSound_assemble_iff`).

Nothing but the places of actions decides where they are put, so that related actions end
up at the same positions (`forall₂_actions_assemble`).
-/

namespace PlanPlayback

open Binary64

namespace Action

/-- An action whose end is where its duration puts it. -/
structure IsTimed (a : Action) : Prop where
  nonneg : 0.0 ≤ a.duration
  finish_eq : a.finish = a.start + a.duration

variable {a : Action}

theorem place_of_isNaN (h : a.start.isNaN = true) : a.place = totalKey a.startBits.code :=
  if_pos h

theorem place_of_isNumber (h : IsNumber a.start) : a.place = orderKey a.start :=
  if_neg (Bool.eq_false_iff.mp (isNaN_eq_false_iff.mpr h))

end Action

/-- What the callers of a plan rely on. -/
structure Plan.IsSound (p : Plan) : Prop where
  ordered : p.actions.IsChain fun a b => a.start ≤ b.start
  nonneg : ∀ a ∈ p.actions, 0.0 ≤ a.duration
  finish_eq : ∀ a ∈ p.actions, (a.finish == a.start + a.duration) = true
  finish_le : ∀ a ∈ p.actions, a.finish ≤ p.totalDuration
  makespan_eq : (p.totalDuration == p.makespan) = true
  attained : p.totalDuration = 0.0 ∨ ∃ a ∈ p.actions, p.totalDuration = a.finish

namespace Plan

/-! ## Sorting and numbering -/

theorem numbered_eq_mapIdx (position : ℕ) (actions : List Action) :
    numbered position actions =
      actions.mapIdx fun i a => { a with id := actionId (position + i) } := by
  induction actions generalizing position with
  | nil => rfl
  | cons a rest ih =>
    rw [numbered, ih, List.mapIdx_cons]
    simp [Nat.add_assoc, Nat.add_comm 1]

theorem mem_numbered {position : ℕ} {actions : List Action} {a : Action}
    (ha : a ∈ numbered position actions) : ∃ b ∈ actions, ∃ id, a = { b with id } := by
  rw [numbered_eq_mapIdx] at ha
  obtain ⟨i, hi, rfl⟩ := List.mem_mapIdx.mp ha
  exact ⟨actions[i], List.getElem_mem hi, _, rfl⟩

theorem map_place_numbered (position : ℕ) (actions : List Action) :
    (numbered position actions).map Action.place = actions.map Action.place := by
  induction actions generalizing position with
  | nil => rfl
  | cons a rest ih => simp [numbered, ih, Action.place]

theorem map_finish_numbered (position : ℕ) (actions : List Action) :
    (numbered position actions).map Action.finish = actions.map Action.finish := by
  induction actions generalizing position with
  | nil => rfl
  | cons a rest ih => simp [numbered, ih]

theorem sorted_eq_self {actions : List Action}
    (h : actions.Pairwise fun a b => a.place ≤ b.place) :
    sorted actions = actions :=
  List.mergeSort_of_pairwise (by simpa using h)

theorem earlier_trans (a b c : Action) (hab : decide (a.place ≤ b.place) = true)
    (hbc : decide (b.place ≤ c.place) = true) :
    decide (a.place ≤ c.place) = true := by
  rw [decide_eq_true_iff] at *
  exact hab.trans hbc

theorem earlier_total (a b : Action) : (decide (a.place ≤ b.place) ||
    decide (b.place ≤ a.place)) = true := by
  simpa using le_total _ _

theorem pairwise_sorted (actions : List Action) :
    (sorted actions).Pairwise fun a b => a.place ≤ b.place := by
  simpa [sorted] using List.pairwise_mergeSort earlier_trans earlier_total actions

/-! ## The total duration -/

theorem foldl_larger {most : Float} (hmost : IsNumber most) (times : List Float) :
    IsNumber (times.foldl larger most) ∧ most ≤ times.foldl larger most ∧
      (∀ x ∈ times, IsNumber x → x ≤ times.foldl larger most) ∧
      (times.foldl larger most = most ∨ times.foldl larger most ∈ times) := by
  induction times generalizing most with
  | nil => exact ⟨hmost, Binary64.le_refl hmost, by simp, .inl rfl⟩
  | cons x rest ih =>
    obtain ⟨hnumber, hle, hle', hcases⟩ := @larger_cases most x hmost
    obtain ⟨hfold, hbelow, hall, hattained⟩ := ih hnumber
    rw [List.foldl_cons]
    refine ⟨hfold, Binary64.le_trans hle hbelow, ?_, ?_⟩
    · intro y hy hy_number
      rcases List.mem_cons.mp hy with rfl | hy
      · exact Binary64.le_trans (hle' hy_number) hbelow
      · exact hall y hy hy_number
    · rcases hattained with h | h
      · rw [h]
        rcases hcases with h | h <;> simp [h]
      · exact .inr (List.mem_cons_of_mem _ h)

variable {dialect : Dialect} {actions : List Action} {statistics : Statistics}

/-! ## Plans whose actions are in order -/

theorem actions_assemble_eq (h : actions.Pairwise fun a b => a.place ≤ b.place) :
    (assemble dialect actions statistics).actions =
      actions.mapIdx fun i a => { a with id := actionId i } := by
  rw [assemble, sorted_eq_self h, numbered_eq_mapIdx]
  simp only [Nat.zero_add]

theorem totalDuration_assemble_eq
    (h : actions.Pairwise fun a b => a.place ≤ b.place) :
    (assemble dialect actions statistics).totalDuration =
      (actions.map Action.finish).foldl larger 0.0 := by
  simp only [assemble, sorted_eq_self h, map_finish_numbered]

/-- Two actions that are out of order change places. -/
theorem names_assemble_of_lt {x y : String × ℤ}
    (hactions : (actions.map fun a => (a.name, a.place)) = [x, y]) (hlt : y.2 < x.2) :
    (assemble dialect actions statistics).actions.map Action.name = [y.1, x.1] := by
  obtain ⟨a, rest, rfl, rfl, hrest⟩ := List.map_eq_cons_iff.mp hactions
  obtain ⟨b, rest, rfl, rfl, hnone⟩ := List.map_eq_cons_iff.mp hrest
  obtain rfl := List.map_eq_nil_iff.mp hnone
  have hswapped : sorted [a, b] = [b, a] := by
    simp [sorted, List.mergeSort, List.MergeSort.Internal.splitInTwo, not_le.mpr hlt]
  rw [assemble, hswapped]
  rfl

/-! ## Plans of related actions -/

section Related

variable {R : Action → Action → Prop} {first second : List Action}

theorem forall₂_numbered (hid : ∀ a b id, R a b → R { a with id } { b with id })
    (h : List.Forall₂ R first second) (position : ℕ) :
    List.Forall₂ R (numbered position first) (numbered position second) := by
  induction h generalizing position with
  | nil => exact .nil
  | cons hhead _ ih => exact .cons (hid _ _ _ hhead) (ih (position + 1))

/-- Actions that start together are put in the same order. -/
theorem forall₂_sorted (hplace : ∀ a b, R a b → a.place = b.place)
    (h : List.Forall₂ R first second) : List.Forall₂ R (sorted first) (sorted second) := by
  -- both lists are images of the list of their pairs, which is sorted once
  obtain ⟨pairs, hpairs, rfl, rfl⟩ : ∃ pairs : List (Action × Action),
      (∀ pair ∈ pairs, R pair.1 pair.2) ∧ first = pairs.map Prod.fst ∧
        second = pairs.map Prod.snd := by
    induction h with
    | nil => exact ⟨[], by simp, rfl, rfl⟩
    | @cons a b _ _ hhead _ ih =>
      obtain ⟨pairs, hpairs, rfl, rfl⟩ := ih
      exact ⟨(a, b) :: pairs, by simpa using ⟨hhead, fun c d => hpairs (c, d)⟩, rfl, rfl⟩
  let earlier (x y : Action × Action) : Bool :=
    decide (x.1.place ≤ y.1.place)
  have hfirst : sorted (pairs.map Prod.fst) = (pairs.mergeSort earlier).map Prod.fst := by
    rw [List.map_mergeSort, sorted]
    exact fun _ _ _ _ => rfl
  have hsecond : sorted (pairs.map Prod.snd) = (pairs.mergeSort earlier).map Prod.snd := by
    rw [List.map_mergeSort, sorted]
    intro x hx y hy
    rw [← hplace _ _ (hpairs x hx), ← hplace _ _ (hpairs y hy)]
  rw [hfirst, hsecond, List.forall₂_map_left_iff, List.forall₂_map_right_iff, List.forall₂_same]
  exact fun pair hpair => hpairs pair ((List.mergeSort_perm pairs earlier).mem_iff.mp hpair)

theorem forall₂_actions_assemble (hid : ∀ a b id, R a b → R { a with id } { b with id })
    (hplace : ∀ a b, R a b → a.place = b.place) (h : List.Forall₂ R first second)
    (dialect : Dialect) (statistics statistics' : Statistics) :
    List.Forall₂ R (assemble dialect first statistics).actions
      (assemble dialect second statistics').actions :=
  forall₂_numbered hid (forall₂_sorted hplace h) 0

end Related

/-! ## Soundness -/

theorem mem_actions_assemble {a : Action} (ha : a ∈ (assemble dialect actions statistics).actions) :
    ∃ b ∈ actions, ∃ id, a = { b with id } := by
  obtain ⟨b, hb, id, rfl⟩ := mem_numbered ha
  exact ⟨b, (List.mergeSort_perm actions _).mem_iff.mp hb, id, rfl⟩

theorem exists_mem_actions_assemble {b : Action} (hb : b ∈ actions) :
    ∃ id, { b with id } ∈ (assemble dialect actions statistics).actions := by
  have hsorted : b ∈ sorted actions := (List.mergeSort_perm actions _).mem_iff.mpr hb
  obtain ⟨i, hi, rfl⟩ := List.mem_iff_getElem.mp hsorted
  refine ⟨actionId (0 + i), ?_⟩
  rw [assemble, numbered_eq_mapIdx]
  exact List.mem_mapIdx.mpr ⟨i, hi, rfl⟩

theorem isTimed_of_mem_actions (h : ∀ a ∈ actions, a.IsTimed) {a : Action}
    (ha : a ∈ (assemble dialect actions statistics).actions) : a.IsTimed := by
  obtain ⟨b, hb, id, rfl⟩ := mem_actions_assemble ha
  exact ⟨(h b hb).nonneg, (h b hb).finish_eq⟩

theorem pairwise_assemble :
    (assemble dialect actions statistics).actions.Pairwise
      fun a b => a.place ≤ b.place := by
  have hplaces := pairwise_sorted actions
  rw [← List.pairwise_map (f := Action.place) (R := (· ≤ ·))]
    at hplaces ⊢
  rwa [assemble, map_place_numbered]

/-- The actions of a plan start in order, as far as their starts are numbers. -/
theorem pairwise_start_le : (assemble dialect actions statistics).actions.Pairwise
    fun a b => IsNumber a.start → IsNumber b.start → a.start ≤ b.start := by
  refine pairwise_assemble.imp fun hle ha hb => ?_
  rw [Action.place_of_isNumber ha, Action.place_of_isNumber hb] at hle
  exact le_of_orderKey_le ha hb hle

/-- A plan is sound exactly if no end of an action is lost. -/
theorem isSound_assemble_iff (h : ∀ a ∈ actions, a.IsTimed) :
    (assemble dialect actions statistics).IsSound ↔
      ∀ a ∈ (assemble dialect actions statistics).actions,
        a.start.isNaN = false ∧
          (a.start.isFinite = true ∨ a.duration.isFinite = true ∨ 0.0 ≤ a.start) := by
  have htimed (a : Action) (ha : a ∈ (assemble dialect actions statistics).actions) : a.IsTimed :=
    isTimed_of_mem_actions h ha
  have hmakespan : (assemble dialect actions statistics).totalDuration =
      (assemble dialect actions statistics).makespan := rfl
  have hlatest : (assemble dialect actions statistics).totalDuration =
      ((assemble dialect actions statistics).actions.map Action.finish).foldl larger 0.0 := rfl
  have hordered := @pairwise_start_le dialect actions statistics
  generalize assemble dialect actions statistics = p at *
  simp only [isNaN_eq_false_iff]
  constructor
  · intro hsound a ha
    exact (isNumber_add_iff (htimed a ha).nonneg).mp (beq_iff.mp (hsound.finish_eq a ha)).2.1
  · intro hends
    have hfinish : ∀ a ∈ p.actions, IsNumber a.finish := by
      intro a ha
      rw [(htimed a ha).finish_eq]
      exact (isNumber_add_iff (htimed a ha).nonneg).mpr (hends a ha)
    obtain ⟨hnumber, -, hbelow, hattained⟩ :=
      foldl_larger isNumber_zero (p.actions.map Action.finish)
    rw [← hlatest] at hnumber hbelow hattained
    refine ⟨?_, fun a ha => (htimed a ha).nonneg, ?_, ?_, ?_, ?_⟩
    · refine List.Pairwise.isChain (hordered.imp_of_mem ?_)
      intro a b ha hb hle
      exact hle (hends a ha).1 (hends b hb).1
    · intro a ha
      rw [beq_iff, ← (htimed a ha).finish_eq]
      exact ⟨hfinish a ha, hfinish a ha, rfl⟩
    · intro a ha
      exact hbelow _ (List.mem_map_of_mem ha) (hfinish a ha)
    · rw [← hmakespan]
      exact beq_iff.mpr ⟨hnumber, hnumber, rfl⟩
    · refine hattained.imp_right fun hmem => ?_
      obtain ⟨a, ha, heq⟩ := List.mem_map.mp hmem
      exact ⟨a, ha, heq.symm⟩

end Plan

end PlanPlayback
