import PlanPlayback.Proofs.Playback.EffectSources
import PlanPlayback.Proofs.Playback.Growth

/-!
# Where an action stands in a plan

A declared effect is kept if its amount can be evaluated on the fluents that are there when its
action is looked at.  These are not the fluents of the problem alone: the actions in front have
added theirs.  So an action may be given effects that the same action further ahead in the plan is
not given.

## Strategy

The effects that an operator declares for an action do not depend on the position
(`Action.grounded`).  The fluents grow from position to position, and so do the effects that have an
amount; of both, the first one on every fluent is kept.  What is kept of the larger list is also kept
of the smaller one exactly if all of it is there (`firstOnEach_filter_eq_iff`).

* `Action.resolve_eq_iff_of_growsTo` compares an action on two stores;
* `Plan.growsTo_storeAt`: the stores of a plan grow;
* `Plan.resolved_alike_iff` compares two positions, and a position with the beginning.
-/

namespace PlanPlayback

/-! ## Keeping the first effect on every fluent -/

theorem mem_of_mem_firstOnEach {taken : List String} {effects : List Effect} {e : Effect}
    (h : e ∈ firstOnEach taken effects) : e ∈ effects := by
  induction effects generalizing taken with
  | nil => exact h
  | cons first rest ih =>
    by_cases htaken : first.fluent ∈ taken
    · rw [firstOnEach_cons_of_mem htaken] at h
      exact List.mem_cons_of_mem _ (ih h)
    · rw [firstOnEach_cons_of_notMem htaken] at h
      rcases List.mem_cons.mp h with rfl | h
      · exact List.mem_cons_self
      · exact List.mem_cons_of_mem _ (ih h)

/-- A stronger filter keeps the same effects exactly if all that are kept by the weaker one pass
it. -/
theorem firstOnEach_filter_eq_iff {weaker stronger : Effect → Bool}
    (h : ∀ e, stronger e = true → weaker e = true) {taken : List String} {effects : List Effect} :
    firstOnEach taken (effects.filter stronger) = firstOnEach taken (effects.filter weaker) ↔
      ∀ e ∈ firstOnEach taken (effects.filter weaker), stronger e = true := by
  induction effects generalizing taken with
  | nil => exact ⟨fun _ _ he => absurd he List.not_mem_nil, fun _ => rfl⟩
  | cons first rest ih =>
    by_cases hweaker : weaker first = true
    · by_cases hstronger : stronger first = true
      · rw [List.filter_cons_of_pos hstronger, List.filter_cons_of_pos hweaker]
        by_cases htaken : first.fluent ∈ taken
        · rw [firstOnEach_cons_of_mem htaken, firstOnEach_cons_of_mem htaken]
          exact ih
        · rw [firstOnEach_cons_of_notMem htaken, firstOnEach_cons_of_notMem htaken,
            List.cons_inj_right, ih, List.forall_mem_cons]
          exact ⟨fun hrest => ⟨hstronger, hrest⟩, fun hall => hall.2⟩
      · rw [List.filter_cons_of_neg hstronger, List.filter_cons_of_pos hweaker]
        by_cases htaken : first.fluent ∈ taken
        · rw [firstOnEach_cons_of_mem htaken]
          exact ih
        · -- the first effect is kept by the weaker filter alone
          rw [firstOnEach_cons_of_notMem htaken]
          constructor
          · intro hsame
            have hmem : first ∈ firstOnEach taken (rest.filter stronger) :=
              hsame ▸ List.mem_cons_self
            exact absurd (List.mem_filter.mp (mem_of_mem_firstOnEach hmem)).2 hstronger
          · intro hall
            exact absurd (hall first List.mem_cons_self) hstronger
    · have hstronger : ¬ stronger first = true := fun hpass => hweaker (h first hpass)
      rw [List.filter_cons_of_neg hstronger, List.filter_cons_of_neg hweaker]
      exact ih

/-! ## An action on two stores -/

namespace Action

/-- The effects that the operator of an action declares, whether they have an amount or not. -/
def grounded (action : Action) (domain : Option Domain) : List Effect :=
  match domain.bind fun d => d.operator? action.name with
  | some op => op.numericEffects.map fun e => e.ground (op.bindings action) action.duration
  | none => []

variable {settings : FluentSettings} {domain : Option Domain} {s t : Store} {action a b : Action}

theorem declared_eq_filter (action : Action) (domain : Option Domain) (s : Store) :
    action.declared domain s = (action.grounded domain).filter fun e => (e.amountIn? s).isSome := by
  cases domain with
  | none => rfl
  | some d =>
    change declaredEffects d s action = _
    unfold declaredEffects grounded
    rw [Option.bind_some]
    cases d.operator? action.name <;> rfl

/-- Without printed effects and fallback, an action has the first declared effect on every fluent. -/
theorem resolve_of_unprinted (hrules : settings.usesRules = false) (hprinted : action.effects = []) :
    action.resolve settings domain s = firstOnEach [] (action.declared domain s) := by
  have hnone : action.printedEffects = [] := by rw [printedEffects, hprinted, List.map_nil]
  have hfluents : action.printedFluents = [] := by rw [printedFluents, hnone, List.map_nil]
  have hfallback : fallbackEffect? settings s action = none := by
    simp [fallbackEffect?, FluentSettings.ruleFor?, hrules]
  rw [resolve_eq, hnone, hfluents, hfallback, List.nil_append, List.nil_append]
  split_ifs with hempty
  · rw [unprinted, hfluents] at hempty
    exact (firstOnEach_eq_nil_iff.mpr hempty).symm
  · rfl

/-- Name, arguments and duration decide which effects are declared. -/
theorem resolve_congr (hname : a.name = b.name) (hargs : a.args = b.args)
    (hduration : a.duration = b.duration) (hrules : settings.usesRules = false)
    (ha : a.effects = []) (hb : b.effects = []) :
    a.resolve settings domain s = b.resolve settings domain s := by
  have hgrounded : a.grounded domain = b.grounded domain := by
    unfold grounded Operator.bindings
    rw [hname, hargs, hduration]
  rw [resolve_of_unprinted hrules ha, resolve_of_unprinted hrules hb, declared_eq_filter,
    declared_eq_filter, hgrounded]

/-- On a store that has grown, an action is given the same effects exactly if all of them had an
amount before. -/
theorem resolve_eq_iff_of_growsTo (hrules : settings.usesRules = false)
    (hprinted : action.effects = []) (h : s.GrowsTo t) :
    action.resolve settings domain s = action.resolve settings domain t ↔
      ∀ e ∈ action.resolve settings domain t, (e.amountIn? s).isSome = true := by
  rw [resolve_of_unprinted hrules hprinted, resolve_of_unprinted hrules hprinted,
    declared_eq_filter, declared_eq_filter]
  refine firstOnEach_filter_eq_iff fun e hbefore => ?_
  obtain ⟨x, hamount⟩ := Option.isSome_iff_exists.mp hbefore
  exact Option.isSome_iff_exists.mpr ⟨x, Effect.amountIn?_of_growsTo h hamount⟩

end Action

/-! ## The stores of a plan -/

/-- The fluents in front of the first action: those of the problem. -/
def Context.initialStore (context : Context) (settings : FluentSettings) : Store :=
  match context.problem with
  | some problem => Store.ofProblem settings problem
  | none => {}

namespace Plan

variable {plan : Plan} {context : Context} {settings : FluentSettings}

theorem resolve_of_not_isClassical (hnumeric : context.isClassical plan = false) :
    plan.resolve context settings =
      Resolution.ofActions settings context.domain (context.initialStore settings) plan.actions := by
  unfold resolve
  rw [hnumeric]
  rfl

theorem storeAt_eq (hnumeric : context.isClassical plan = false) (position : Nat) :
    plan.storeAt context settings position =
      (Resolution.ofActions settings context.domain (context.initialStore settings)
        (plan.actions.take position)).store := by
  have hprefix :
      context.isClassical { plan with actions := plan.actions.take position } = false := hnumeric
  exact congrArg Resolution.store (resolve_of_not_isClassical hprefix)

theorem growsTo_storeAt (hnumeric : context.isClassical plan = false) {i j : Nat} (hij : i ≤ j) :
    (plan.storeAt context settings i).GrowsTo (plan.storeAt context settings j) := by
  have hsplit : plan.actions.take j = plan.actions.take i ++ (plan.actions.take j).drop i :=
    calc plan.actions.take j
        = (plan.actions.take j).take i ++ (plan.actions.take j).drop i :=
          (List.take_append_drop i _).symm
      _ = plan.actions.take i ++ (plan.actions.take j).drop i := by
          rw [List.take_take, Nat.min_eq_left hij]
  rw [storeAt_eq hnumeric, storeAt_eq hnumeric, hsplit, Resolution.store_ofActions_append]
  exact Resolution.growsTo_ofActions settings context.domain _ _

theorem initialStore_growsTo_storeAt (hnumeric : context.isClassical plan = false) (i : Nat) :
    (context.initialStore settings).GrowsTo (plan.storeAt context settings i) := by
  rw [storeAt_eq hnumeric]
  exact Resolution.growsTo_ofActions settings context.domain _ _

/-- **What an action is given depends on the fluents in front of it.**  The plan is not classical,
and the fallback is switched off.  Two actions with the same name, arguments and duration, for which
no effects are printed, are given the same effects exactly if all effects of the later one have an
amount in front of the earlier one already.  The later one is given the effects that it would be
given on the fluents of the problem exactly if all its effects have an amount there; then the
earlier one is given them as well. -/
theorem resolved_alike_iff (plan : Plan) (context : Context) (settings : FluentSettings)
    (hnumeric : context.isClassical plan = false) (hrules : settings.usesRules = false)
    {i j : Nat} (hij : i ≤ j) {a b : Action} (ha : plan.actions[i]? = some a)
    (hb : plan.actions[j]? = some b) (hname : a.name = b.name) (hargs : a.args = b.args)
    (hduration : a.duration = b.duration) (hprinted : a.effects = [] ∧ b.effects = []) :
    let initial := context.initialStore settings
    ∃ earlier later, (plan.resolve context settings).perAction[i]? = some earlier ∧
      (plan.resolve context settings).perAction[j]? = some later ∧
      (earlier = later ↔
        ∀ e ∈ later, (e.amountIn? (plan.storeAt context settings i)).isSome = true) ∧
      (b.resolve settings context.domain initial = later ↔
        ∀ e ∈ later, (e.amountIn? initial).isSome = true) ∧
      ((∀ e ∈ later, (e.amountIn? initial).isSome = true) → earlier = later) := by
  intro initial
  have hsame : ∀ s, a.resolve settings context.domain s = b.resolve settings context.domain s :=
    fun s => Action.resolve_congr hname hargs hduration hrules hprinted.1 hprinted.2
  have hearlier : a.resolve settings context.domain (plan.storeAt context settings i) =
        b.resolve settings context.domain (plan.storeAt context settings j) ↔
      ∀ e ∈ b.resolve settings context.domain (plan.storeAt context settings j),
        (e.amountIn? (plan.storeAt context settings i)).isSome = true := by
    rw [hsame]
    exact Action.resolve_eq_iff_of_growsTo hrules hprinted.2 (growsTo_storeAt hnumeric hij)
  refine ⟨_, _, ?_, ?_, hearlier, ?_, fun hinitial => hearlier.mpr fun e he => ?_⟩
  · rw [perAction_resolve hnumeric, ha]
    rfl
  · rw [perAction_resolve hnumeric, hb]
    rfl
  · exact Action.resolve_eq_iff_of_growsTo hrules hprinted.2
      (initialStore_growsTo_storeAt hnumeric j)
  · obtain ⟨x, hamount⟩ := Option.isSome_iff_exists.mp (hinitial e he)
    exact Option.isSome_iff_exists.mpr
      ⟨x, Effect.amountIn?_of_growsTo (initialStore_growsTo_storeAt hnumeric i) hamount⟩

/-- Scales add up what is weighed, once they have been given a weight. -/
def scales : Domain :=
  { actions :=
      [{ name := "weigh", kind := .action, parameters := [⟨"?s", rootType⟩],
         numericEffects := [⟨"total", [], .increase, .fluent "weight" [], .instant⟩] },
        { name := "calibrate", kind := .action, parameters := [⟨"?s", rootType⟩],
          numericEffects := [⟨"weight", [], .assign, .number 5.0, .instant⟩] }] }

/-- The scales are calibrated between two weighings. -/
def weighings : Plan :=
  { dialect := .numeric
    actions := [Action.make "weigh" ["s1"] 0.0 1.0, Action.make "calibrate" ["s1"] 1.0 1.0,
      Action.make "weigh" ["s1"] 2.0 1.0]
    totalDuration := 3.0, cost := 3.0, statistics := {} }

/-- With a weight at the beginning, both weighings have the same effect. -/
theorem weighings_resolved_alike :
    let context : Context :=
      { domain := some scales
        problem := some { numericInit := [⟨"total", [], 0.0⟩, ⟨"weight", [], 2.0⟩] } }
    let settings : FluentSettings := { usesRules := false }
    context.isClassical weighings = false ∧ settings.usesRules = false ∧ 0 ≤ 2 ∧
      weighings.actions[0]? = some weighings.actions[0] ∧
      weighings.actions[2]? = some weighings.actions[2] ∧
      weighings.actions[0].name = weighings.actions[2].name ∧
      weighings.actions[0].args = weighings.actions[2].args ∧
      weighings.actions[0].duration = weighings.actions[2].duration ∧
      (weighings.actions[0].effects = [] ∧ weighings.actions[2].effects = []) ∧
      (weighings.resolve context settings).perAction[0]? =
        (weighings.resolve context settings).perAction[2]? ∧
      (weighings.resolve context settings).perAction[2]?.map (List.map Effect.fluent) =
        some ["total"] := by
  intro context settings
  obtain ⟨earlier, later, hearlier, hlater, -, -, halike⟩ :=
    resolved_alike_iff weighings context settings rfl rfl (Nat.zero_le 2) rfl rfl rfl rfl rfl
      ⟨rfl, rfl⟩
  have hfluents : (weighings.resolve context settings).perAction[2]?.map (List.map Effect.fluent) =
      some ["total"] := by decide +kernel
  have hamounts : ∀ effects ∈ (weighings.resolve context settings).perAction[2]?,
      (effects.all fun e => (e.amountIn? (context.initialStore settings)).isSome) = true := by
    decide +kernel
  have hsame : earlier = later := halike (List.all_eq_true.mp (hamounts later hlater))
  refine ⟨rfl, rfl, Nat.zero_le 2, rfl, rfl, rfl, rfl, rfl, ⟨rfl, rfl⟩, ?_, hfluents⟩
  rw [hearlier, hlater, hsame]

/-- Without one, the first weighing is without effect, and the second one is not. -/
theorem not_resolved_alike :
    ¬∀ (plan : Plan) (context : Context) (settings : FluentSettings) (i j : Nat) (a b : Action),
      context.isClassical plan = false → settings.usesRules = false →
        plan.actions[i]? = some a → plan.actions[j]? = some b →
        a.name = b.name → a.args = b.args → a.duration = b.duration →
        a.effects = [] → b.effects = [] →
        (plan.resolve context settings).perAction[i]? =
          (plan.resolve context settings).perAction[j]? := by
  intro h
  let context : Context :=
    { domain := some scales, problem := some { numericInit := [⟨"total", [], 0.0⟩] } }
  have halike := congrArg (Option.map List.length) (h weighings context { usesRules := false } 0 2
    weighings.actions[0] weighings.actions[2] rfl rfl rfl rfl rfl rfl rfl rfl rfl)
  revert halike
  decide +kernel

end Plan

end PlanPlayback
