import PlanPlayback.Proofs.Pddl.Declarations
import PlanPlayback.Proofs.Sexpr.RenderedParts

/-!
# What an operator computes with

An operator collects numeric effects from its effect and comparisons from its condition.  Each of them
is read from a list somewhere in the declaration, which begins with the keyword of an update or with
a comparator and has further items: an operator computes with nothing unless its declaration says so
(`Operator.computesBy_of_declared?`).

A walk goes down to the items of a list, so a list that is found in an item is found in the list
(`Sexpr.HasCallOf.list`); what is collected is read at the leaves of the walk.  The walk into all
items and the walk into the last one are followed side by side with the walk into one expression.
-/

namespace PlanPlayback

open Sexpr

/-! ## Lists in lists -/

namespace Sexpr

theorem groups_subset_groups_list {e : Sexpr} {items : List Sexpr} (he : e ∈ items) :
    e.groups ⊆ (list items).groups := by
  obtain ⟨front, behind, rfl⟩ := List.append_of_mem he
  intro group hgroup
  rw [groups, groupsAll_append, groupsAll]
  exact List.mem_cons_of_mem _ (List.mem_append_right _ (List.mem_append_left _ hgroup))

/-- Whether some list in an expression begins with one of several atoms and has a further item. -/
def HasCallOf (words : List String) (e : Sexpr) : Prop :=
  ∃ word ∈ words, e.HasCall word

theorem HasCallOf.list {words : List String} {items : List Sexpr}
    (h : ∃ e ∈ items, e.HasCallOf words) : (list items).HasCallOf words := by
  obtain ⟨e, he, word, hword, next, rest, hgroup⟩ := h
  exact ⟨word, hword, next, rest, groups_subset_groups_list he hgroup⟩

theorem hasCallOf_list_cons {words : List String} {word : String} (hword : word ∈ words)
    (next : Sexpr) (rest : List Sexpr) :
    (list (.atom word :: next :: rest)).HasCallOf words :=
  ⟨word, hword, next, rest, List.mem_cons_self⟩

end Sexpr

/-! ## Leaves -/

/-- The heads of numeric effects. -/
def updateWords : List String :=
  [Update.increase, .decrease, .assign, .scaleUp, .scaleDown].map Update.keyword

/-- The heads of comparisons. -/
def comparators : List String := [">", ">=", "<", "<=", "="]

theorem Update.mem_updateWords {text : String} {update : Update}
    (h : ofKeyword? text = some update) : text ∈ updateWords := by
  unfold ofKeyword? at h
  have hkeyword := List.find?_some h
  exact List.mem_map.mpr ⟨update, List.mem_of_find?_eq_some h, beq_iff_eq.mp hkeyword⟩

theorem hasCallOf_of_mem_effectLeaf {timing : Timing} {head : String} {rest : List Sexpr}
    {effect : NumericEffect} (h : effect ∈ (effectLeaf timing head rest).numericEffects) :
    (list (.atom head :: rest)).HasCallOf updateWords := by
  unfold effectLeaf at h
  split at h
  next update hupdate =>
    split at h
    next found hfound =>
      unfold NumericEffect.of? at hfound
      split at hfound
      next target amount => exact hasCallOf_list_cons (Update.mem_updateWords hupdate) target [amount]
      · cases hfound
    · cases h
  · cases h

theorem hasCallOf_of_mem_conditionLeaf {timing : Timing} {head : String} {rest : List Sexpr}
    {comparison : Comparison} (h : comparison ∈ (conditionLeaf timing head rest).comparisons) :
    (list (.atom head :: rest)).HasCallOf comparators := by
  unfold conditionLeaf at h
  split at h
  next found hfound =>
    unfold Comparison.of? at hfound
    split at hfound
    next left right =>
      split_ifs at hfound with hhead
      have hmem := List.contains_iff_mem.mp (Bool.and_eq_true_iff.mp hhead).1
      exact hasCallOf_list_cons hmem left [right]
    · cases hfound
  · cases h

/-- Nothing is computed under a negation. -/
theorem of_negationLeaf (timing : Timing) (whole : Sexpr) (rest : List Sexpr) :
    (negationLeaf timing whole rest).numericEffects = [] ∧
      (negationLeaf timing whole rest).comparisons = [] := by
  unfold negationLeaf
  split <;> exact ⟨rfl, rfl⟩

/-! ## Walks -/

section

variable {effect : NumericEffect} {comparison : Comparison}

mutual

theorem hasCallOf_of_mem_effects : ∀ {timing : Timing} {e : Sexpr},
    effect ∈ (effects timing e).numericEffects → e.HasCallOf updateWords
  | _, .atom _, h => by cases h
  | _, .list [], h => by cases h
  | _, .list (.list _ :: _), h => by cases h
  | timing, .list (.atom head :: rest), h => by
    unfold effects at h
    split at h
    · exact .list (List.exists_mem_cons_of_exists (hasCallOf_of_mem_effectsOfLast h))
    · split_ifs at h
      · exact .list (List.exists_mem_cons_of_exists (hasCallOf_of_mem_effectsOfAll h))
      · exact .list (List.exists_mem_cons_of_exists (hasCallOf_of_mem_effectsOfLast h))
      · rw [(of_negationLeaf _ _ _).1] at h
        cases h
      · exact hasCallOf_of_mem_effectLeaf h

theorem hasCallOf_of_mem_effectsOfAll : ∀ {timing : Timing} {forms : List Sexpr},
    effect ∈ (effectsOfAll timing forms).numericEffects → ∃ e ∈ forms, e.HasCallOf updateWords
  | _, [], h => by cases h
  | _, e :: rest, h => by
    rcases List.mem_append.mp h with hfirst | hrest
    · exact ⟨e, List.mem_cons_self, hasCallOf_of_mem_effects hfirst⟩
    · exact List.exists_mem_cons_of_exists (hasCallOf_of_mem_effectsOfAll hrest)

theorem hasCallOf_of_mem_effectsOfLast : ∀ {timing : Timing} {forms : List Sexpr},
    effect ∈ (effectsOfLast timing forms).numericEffects → ∃ e ∈ forms, e.HasCallOf updateWords
  | _, [], h => by cases h
  | _, [e], h => ⟨e, List.mem_cons_self, hasCallOf_of_mem_effects h⟩
  | _, _ :: _ :: _, h => by
    rw [effectsOfLast] at h
    exact List.exists_mem_cons_of_exists (hasCallOf_of_mem_effectsOfLast h)

end

mutual

theorem hasCallOf_of_mem_conditions : ∀ {timing : Timing} {e : Sexpr},
    comparison ∈ (conditions timing e).comparisons → e.HasCallOf comparators
  | _, .atom _, h => by cases h
  | _, .list [], h => by cases h
  | _, .list (.list _ :: _), h => by cases h
  | timing, .list (.atom head :: rest), h => by
    unfold conditions at h
    split at h
    · exact .list (List.exists_mem_cons_of_exists (hasCallOf_of_mem_conditionsOfLast h))
    · split_ifs at h
      · exact .list (List.exists_mem_cons_of_exists (hasCallOf_of_mem_conditionsOfAll h))
      · exact .list (List.exists_mem_cons_of_exists (hasCallOf_of_mem_conditionsOfLast h))
      · rw [(of_negationLeaf _ _ _).2] at h
        cases h
      · exact hasCallOf_of_mem_conditionLeaf h

theorem hasCallOf_of_mem_conditionsOfAll : ∀ {timing : Timing} {forms : List Sexpr},
    comparison ∈ (conditionsOfAll timing forms).comparisons →
      ∃ e ∈ forms, e.HasCallOf comparators
  | _, [], h => by cases h
  | _, e :: rest, h => by
    rcases List.mem_append.mp h with hfirst | hrest
    · exact ⟨e, List.mem_cons_self, hasCallOf_of_mem_conditions hfirst⟩
    · exact List.exists_mem_cons_of_exists (hasCallOf_of_mem_conditionsOfAll hrest)

theorem hasCallOf_of_mem_conditionsOfLast : ∀ {timing : Timing} {forms : List Sexpr},
    comparison ∈ (conditionsOfLast timing forms).comparisons →
      ∃ e ∈ forms, e.HasCallOf comparators
  | _, [], h => by cases h
  | _, [e], h => ⟨e, List.mem_cons_self, hasCallOf_of_mem_conditions h⟩
  | _, _ :: _ :: _, h => by
    rw [conditionsOfLast] at h
    exact List.exists_mem_cons_of_exists (hasCallOf_of_mem_conditionsOfLast h)

end

end

/-! ## Operators -/

/-- Whether an operator computes with nothing that an expression does not say. -/
structure Operator.ComputesBy (op : Operator) (e : Sexpr) : Prop where
  effects : ∀ effect ∈ op.numericEffects, e.HasCallOf updateWords
  comparisons : ∀ comparison ∈ op.comparisons, e.HasCallOf comparators

namespace OperatorDraft

variable {draft : OperatorDraft} {declaration : Sexpr}

theorem computesBy_addField (h : draft.operator.ComputesBy declaration) (key : Sexpr) {value : Sexpr}
    (hvalue : ∀ words, value.HasCallOf words → declaration.HasCallOf words) :
    (draft.addField key value).operator.ComputesBy declaration := by
  unfold addField
  split
  case h_2 | h_3 =>
    refine ⟨h.effects, fun comparison hmem => ?_⟩
    exact (List.mem_append.mp hmem).elim (h.comparisons comparison) fun hnew =>
      hvalue _ (hasCallOf_of_mem_conditions hnew)
  case h_4 =>
    refine ⟨fun effect hmem => ?_, h.comparisons⟩
    exact (List.mem_append.mp hmem).elim (h.effects effect) fun hnew =>
      hvalue _ (hasCallOf_of_mem_effects hnew)
  all_goals exact ⟨h.effects, h.comparisons⟩

theorem computesBy_addFields (h : draft.operator.ComputesBy declaration) {fields : List Sexpr}
    (hfields : ∀ value ∈ fields, ∀ words, value.HasCallOf words → declaration.HasCallOf words) :
    (draft.addFields fields).operator.ComputesBy declaration := by
  fun_induction addFields draft fields with
  | case1 draft => exact h
  | case2 draft key => exact ⟨h.effects, h.comparisons⟩
  | case3 draft key value rest ih =>
    simp only [List.forall_mem_cons] at hfields
    obtain ⟨-, hvalue, hrest⟩ := hfields
    exact ih (computesBy_addField h key hvalue) hrest

end OperatorDraft

/-- An operator computes with nothing that its declaration does not say. -/
theorem Operator.computesBy_of_declared? {declaration : Sexpr} {op : Operator}
    (h : declared? declaration = some op) : op.ComputesBy declaration := by
  obtain ⟨kind, -, hop⟩ := Option.bind_eq_some_iff.mp h
  obtain ⟨name, rfl⟩ := eq_addFields_of_ofSection hop
  refine OperatorDraft.computesBy_addFields ⟨by simp, by simp⟩ ?_
  intro value hvalue words hcall
  cases declaration with
  | atom word => cases hvalue
  | list items =>
    exact .list ⟨value, List.mem_of_mem_drop (List.mem_of_mem_drop hvalue), hcall⟩

end PlanPlayback
