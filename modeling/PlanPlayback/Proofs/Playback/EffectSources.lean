import Mathlib.Data.List.Nodup
import PlanPlayback.Playback.Resolution

/-!
# Where the effects of an action come from

The effects of an action are the printed ones, then declared ones on other fluents, and a fallback
only if there are neither.  Declared effects are added one by one, each unless an effect on its
fluent is there already.  So a declared effect gives way to a printed one on the same fluent, as it
should, but also to a declared one that comes before it: of several declared effects on a fluent
only the first is kept.

* `firstOnEach` is what is kept of a list of declared effects; `foldl_addUnlessPresent`;
* `firstOnEach_eq_unlessTaken_iff`: nothing but what the printed effects replace is lost exactly if the
  other declared effects are on different fluents;
* `Resolution.perAction_ofActions` says on which fluents the effects of an action are resolved;
* `Plan.all_effects_kept_iff` is the result.
-/

namespace PlanPlayback

/-! ## Adding declared effects -/

/-- The first effect on every fluent, except on the fluents that are taken. -/
def firstOnEach (taken : List String) : List Effect → List Effect
  | [] => []
  | e :: rest =>
      if e.fluent ∈ taken then firstOnEach taken rest
      else e :: firstOnEach (taken ++ [e.fluent]) rest

/-- The effects on fluents that are not taken. -/
def unlessTaken (taken : List String) (effects : List Effect) : List Effect :=
  effects.filter fun e => e.fluent ∉ taken

section

variable {taken : List String} {e : Effect} {rest : List Effect}

theorem firstOnEach_cons_of_mem (h : e.fluent ∈ taken) :
    firstOnEach taken (e :: rest) = firstOnEach taken rest :=
  if_pos h

theorem firstOnEach_cons_of_notMem (h : e.fluent ∉ taken) :
    firstOnEach taken (e :: rest) = e :: firstOnEach (taken ++ [e.fluent]) rest :=
  if_neg h

theorem unlessTaken_cons_of_mem (h : e.fluent ∈ taken) :
    unlessTaken taken (e :: rest) = unlessTaken taken rest :=
  List.filter_cons_of_neg (by simpa using h)

theorem unlessTaken_cons_of_notMem (h : e.fluent ∉ taken) :
    unlessTaken taken (e :: rest) = e :: unlessTaken taken rest :=
  List.filter_cons_of_pos (by simpa using h)

theorem mem_unlessTaken {effects : List Effect} :
    e ∈ unlessTaken taken effects ↔ e ∈ effects ∧ e.fluent ∉ taken := by
  rw [unlessTaken, List.mem_filter, decide_eq_true_iff]

end

theorem addUnlessPresent_of_mem {effects : List Effect} {e : Effect}
    (h : e.fluent ∈ effects.map Effect.fluent) : addUnlessPresent effects e = effects := by
  obtain ⟨other, hother, heq⟩ := List.mem_map.mp h
  have hany : effects.any (fun other => other.fluent == e.fluent) = true :=
    List.any_eq_true.mpr ⟨other, hother, beq_iff_eq.mpr heq⟩
  exact if_pos hany

theorem addUnlessPresent_of_notMem {effects : List Effect} {e : Effect}
    (h : e.fluent ∉ effects.map Effect.fluent) : addUnlessPresent effects e = effects ++ [e] := by
  have hany : ¬ effects.any (fun other => other.fluent == e.fluent) = true := by
    intro hany
    obtain ⟨other, hother, heq⟩ := List.any_eq_true.mp hany
    exact h (List.mem_map.mpr ⟨other, hother, beq_iff_eq.mp heq⟩)
  exact if_neg hany

/-- The fluents of the effects that are there are taken. -/
theorem foldl_addUnlessPresent (effects declared : List Effect) :
    declared.foldl addUnlessPresent effects =
      effects ++ firstOnEach (effects.map Effect.fluent) declared := by
  induction declared generalizing effects with
  | nil => exact (List.append_nil effects).symm
  | cons e rest ih =>
    rw [List.foldl_cons, ih]
    by_cases htaken : e.fluent ∈ effects.map Effect.fluent
    · rw [addUnlessPresent_of_mem htaken, firstOnEach_cons_of_mem htaken]
    · rw [addUnlessPresent_of_notMem htaken, firstOnEach_cons_of_notMem htaken, List.map_append,
        List.append_assoc]
      rfl

theorem fluent_notMem_of_mem_firstOnEach {taken : List String} {effects : List Effect} {e : Effect}
    (h : e ∈ firstOnEach taken effects) : e.fluent ∉ taken := by
  induction effects generalizing taken with
  | nil => cases h
  | cons first rest ih =>
    by_cases htaken : first.fluent ∈ taken
    · rw [firstOnEach_cons_of_mem htaken] at h
      exact ih h
    · rw [firstOnEach_cons_of_notMem htaken, List.mem_cons] at h
      rcases h with rfl | h
      · exact htaken
      · exact fun hmem => ih h (List.mem_append_left _ hmem)

/-- Taking a fluent that no other effect is on changes nothing. -/
theorem unlessTaken_append_singleton {taken : List String} {effects : List Effect} {fluent : String}
    (h : ∀ e ∈ unlessTaken taken effects, e.fluent ≠ fluent) :
    unlessTaken (taken ++ [fluent]) effects = unlessTaken taken effects := by
  refine List.filter_congr fun e he => ?_
  rw [decide_eq_decide, List.mem_append, List.mem_singleton, not_or]
  refine ⟨fun hnot => hnot.1, fun hnot => ⟨hnot, ?_⟩⟩
  exact h e (mem_unlessTaken.mpr ⟨he, hnot⟩)

theorem firstOnEach_eq_nil_iff {taken : List String} {effects : List Effect} :
    firstOnEach taken effects = [] ↔ unlessTaken taken effects = [] := by
  induction effects with
  | nil => exact Iff.rfl
  | cons e rest ih =>
    by_cases htaken : e.fluent ∈ taken
    · rw [firstOnEach_cons_of_mem htaken, unlessTaken_cons_of_mem htaken, ih]
    · rw [firstOnEach_cons_of_notMem htaken, unlessTaken_cons_of_notMem htaken]
      exact ⟨nofun, nofun⟩

/-- **Only the first effect on a fluent is kept.**  So all are kept exactly if no two of them are on
the same fluent. -/
theorem firstOnEach_eq_unlessTaken_iff {taken : List String} {effects : List Effect} :
    firstOnEach taken effects = unlessTaken taken effects ↔
      ((unlessTaken taken effects).map Effect.fluent).Nodup := by
  induction effects generalizing taken with
  | nil => exact ⟨fun _ => List.nodup_nil, fun _ => rfl⟩
  | cons e rest ih =>
    by_cases htaken : e.fluent ∈ taken
    · rw [firstOnEach_cons_of_mem htaken, unlessTaken_cons_of_mem htaken, ih]
    · rw [firstOnEach_cons_of_notMem htaken, unlessTaken_cons_of_notMem htaken, List.cons_inj_right,
        List.map_cons, List.nodup_cons]
      constructor
      · intro hkept
        -- nothing that is kept behind the first effect is on its fluent
        have hother : ∀ d ∈ unlessTaken taken rest, d.fluent ≠ e.fluent := by
          intro d hd heq
          rw [← hkept] at hd
          exact fluent_notMem_of_mem_firstOnEach hd
            (List.mem_append_right _ (List.mem_singleton.mpr heq))
        have hsame := unlessTaken_append_singleton hother
        refine ⟨?_, hsame ▸ ih.mp (hkept.trans hsame.symm)⟩
        rintro hmem
        obtain ⟨d, hd, heq⟩ := List.mem_map.mp hmem
        exact hother d hd heq
      · rintro ⟨hfirst, hrest⟩
        have hother : ∀ d ∈ unlessTaken taken rest, d.fluent ≠ e.fluent := fun d hd heq =>
          hfirst (List.mem_map.mpr ⟨d, hd, heq⟩)
        have hsame := unlessTaken_append_singleton hother
        rw [← hsame]
        exact ih.mpr (hsame.symm ▸ hrest)

/-! ## The effects of an action -/

namespace Action

/-- The effects that the operator of an action declares and that have an amount. -/
def declared (action : Action) (domain : Option Domain) (s : Store) : List Effect :=
  match domain with
  | some domain => declaredEffects domain s action
  | none => []

/-- The fluents that the planner printed effects on. -/
def printedFluents (action : Action) : List String :=
  action.printedEffects.map Effect.fluent

/-- The declared effects on fluents that the planner printed no effect on. -/
def unprinted (action : Action) (domain : Option Domain) (s : Store) : List Effect :=
  unlessTaken action.printedFluents (action.declared domain s)

theorem resolve_eq (action : Action) (settings : FluentSettings) (domain : Option Domain)
    (s : Store) :
    action.resolve settings domain s =
      if action.printedEffects ++ action.unprinted domain s = [] then
        (fallbackEffect? settings s action).toList
      else action.printedEffects ++ firstOnEach action.printedFluents (action.declared domain s) := by
  have hresolve : action.resolve settings domain s =
      if ((action.declared domain s).foldl addUnlessPresent action.printedEffects).isEmpty then
        (fallbackEffect? settings s action).toList
      else (action.declared domain s).foldl addUnlessPresent action.printedEffects := rfl
  have hempty : (action.printedEffects ++
        firstOnEach action.printedFluents (action.declared domain s)).isEmpty = true ↔
      action.printedEffects ++ action.unprinted domain s = [] := by
    rw [List.isEmpty_iff, List.append_eq_nil_iff, List.append_eq_nil_iff, firstOnEach_eq_nil_iff]
    exact Iff.rfl
  rw [hresolve, foldl_addUnlessPresent]
  exact if_congr hempty rfl rfl

end Action

/-! ## The effects of all actions -/

/-- The effects of an action are resolved on the fluents that the actions before it have left. -/
theorem Resolution.perAction_ofActions (settings : FluentSettings) (domain : Option Domain)
    (s : Store) (actions : List Action) (position : Nat) :
    (ofActions settings domain s actions).perAction[position]? =
      actions[position]?.map fun action =>
        action.resolve settings domain
          (ofActions settings domain s (actions.take position)).store := by
  induction actions generalizing s position with
  | nil => rfl
  | cons action rest ih =>
    cases position with
    | zero => rfl
    | succ position => exact ih _ position

namespace Plan

/-- The fluents on which the effects of the action at a position are resolved: those of the plan up
to this action. -/
def storeAt (plan : Plan) (context : Context) (settings : FluentSettings) (position : Nat) :
    Store :=
  (resolve { plan with actions := plan.actions.take position } context settings).store

theorem perAction_resolve {plan : Plan} {context : Context}
    (hnumeric : context.isClassical plan = false) (settings : FluentSettings) (position : Nat) :
    (plan.resolve context settings).perAction[position]? =
      plan.actions[position]?.map fun action =>
        action.resolve settings context.domain (plan.storeAt context settings position) := by
  have hprefix :
      context.isClassical { plan with actions := plan.actions.take position } = false := hnumeric
  unfold storeAt resolve
  rw [hnumeric, hprefix]
  exact Resolution.perAction_ofActions settings context.domain _ plan.actions position

/-- **Declared effects give way to printed ones, and to each other.**  The plan is not classical.
The effects of an action are a fallback exactly if no effect is printed and no effect with an amount
is declared.  Otherwise they are the printed effects and, behind them, the first declared effect on
every other fluent.  So every declared effect on a fluent without a printed one is kept, in the
order of the declaration, exactly if no two of them are on the same fluent. -/
theorem all_effects_kept_iff (plan : Plan) (context : Context) (settings : FluentSettings)
    (hnumeric : context.isClassical plan = false) {position : Nat} {action : Action}
    (haction : plan.actions[position]? = some action) :
    let s := plan.storeAt context settings position
    let expected := action.printedEffects ++ action.unprinted context.domain s
    ∃ effects, (plan.resolve context settings).perAction[position]? = some effects ∧
      (expected = [] → effects = (fallbackEffect? settings s action).toList) ∧
      (expected ≠ [] →
        effects = action.printedEffects ++
            firstOnEach action.printedFluents (action.declared context.domain s) ∧
          (effects = expected ↔
            ((action.unprinted context.domain s).map Effect.fluent).Nodup)) := by
  intro s expected
  refine ⟨action.resolve settings context.domain s, ?_, fun hnone => ?_, fun hsome => ?_⟩
  · rw [perAction_resolve hnumeric, haction]
    rfl
  · rw [Action.resolve_eq]
    exact if_pos hnone
  · have hresolve : action.resolve settings context.domain s = action.printedEffects ++
        firstOnEach action.printedFluents (action.declared context.domain s) := by
      rw [Action.resolve_eq]
      exact if_neg hsome
    refine ⟨hresolve, ?_⟩
    rw [hresolve, List.append_cancel_left_eq]
    exact firstOnEach_eq_unlessTaken_iff

/-- A shop serves a customer, with the given effects. -/
def shop (effects : List NumericEffect) : Domain :=
  { actions := [{ name := "serve", kind := .action, parameters := [⟨"?shop", rootType⟩],
                  numericEffects := effects }] }

/-- One customer is served, and the planner prints what is earned. -/
def oneCustomer (printed : List PlannedEffect) : Plan :=
  { dialect := .numeric
    actions := [{ Action.make "serve" ["bakery"] 0.0 1.0 with effects := printed }]
    totalDuration := 1.0, cost := 1.0, statistics := {} }

/-- The declared income gives way to the printed one, and the stock is changed all the same. -/
theorem bakery_effects_kept :
    let domain := shop [⟨"income", ["?shop"], .increase, .number 2.0, .instant⟩,
      ⟨"stock", ["?shop"], .decrease, .number 1.0, .instant⟩]
    let context : Context := { domain := some domain }
    let plan := oneCustomer [⟨"income(bakery)", .increase, 5.0⟩]
    context.isClassical plan = false ∧ plan.actions[0]? = some plan.actions[0] ∧
      ∃ effects, (plan.resolve context {}).perAction[0]? = some effects ∧
        effects = plan.actions[0].printedEffects ++
          plan.actions[0].unprinted context.domain (plan.storeAt context {} 0) ∧
        effects.map Effect.fluent = ["income(bakery)", "stock(bakery)"] := by
  intro domain context plan
  have hnumeric : context.isClassical plan = false := rfl
  have haction : plan.actions[0]? = some plan.actions[0] := rfl
  obtain ⟨effects, hresolve, -, hkept⟩ := all_effects_kept_iff plan context {} hnumeric haction
  have hfluents : (plan.actions[0].printedEffects ++
      plan.actions[0].unprinted context.domain (plan.storeAt context {} 0)).map Effect.fluent =
        ["income(bakery)", "stock(bakery)"] := by decide +kernel
  have hdistinct : ((plan.actions[0].unprinted context.domain
      (plan.storeAt context {} 0)).map Effect.fluent).Nodup := by decide +kernel
  have heffects := (hkept fun hnone => List.cons_ne_nil _ _ hnone).2.mpr hdistinct
  exact ⟨hnumeric, haction, effects, hresolve, heffects, heffects ▸ hfluents⟩

/-- Of two declared changes of the stock, the second one is lost. -/
theorem not_all_effects_kept :
    ¬∀ (plan : Plan) (context : Context) (settings : FluentSettings) (position : Nat)
      (action : Action), context.isClassical plan = false → plan.actions[position]? = some action →
        let expected := action.printedEffects ++
          action.unprinted context.domain (plan.storeAt context settings position)
        expected ≠ [] → (plan.resolve context settings).perAction[position]? = some expected := by
  intro h
  let domain := shop [⟨"stock", ["?shop"], .decrease, .number 3.0, .instant⟩,
    ⟨"stock", ["?shop"], .increase, .number 1.0, .instant⟩]
  let context : Context := { domain := some domain }
  let plan := oneCustomer []
  have htwo : (plan.actions[0].printedEffects ++ plan.actions[0].unprinted context.domain
      (plan.storeAt context {} 0)).length = 2 := by decide +kernel
  have hone : (plan.resolve context {}).perAction[0]?.map List.length = some 1 := by decide +kernel
  have hsome := List.ne_nil_of_length_pos (htwo ▸ Nat.zero_lt_two)
  rw [h plan context {} 0 plan.actions[0] rfl rfl hsome, Option.map_some, htwo] at hone
  exact absurd (Option.some.inj hone) (by decide)

end Plan

end PlanPlayback
