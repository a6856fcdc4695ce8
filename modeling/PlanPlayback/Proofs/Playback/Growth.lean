import PlanPlayback.Playback.Resolution
import PlanPlayback.Proofs.Playback.StoreView

/-!
# The fluents of a plan grow

The effects of the actions of a plan are resolved in turn, and before the next action is looked at
the store is given every fluent that an effect is on.  Fluents are only added: those that are there
stay as they are, and so an amount that can be evaluated keeps its value.

* `Store.GrowsTo` compares two stores;
* `Resolution.growsTo_ofActions`: the store of a plan has grown from the one before the first action;
* `Resolution.has_of_mem_perAction`: it has the fluents of all effects;
* `Effect.amountIn?_of_growsTo`: amounts stay what they are.
-/

namespace PlanPlayback

namespace Store

/-- Whether a store has the fluents of another one as they are, and possibly more. -/
def GrowsTo (s t : Store) : Prop :=
  ∀ key f, s.get? key = some f → t.get? key = some f

namespace GrowsTo

variable {s t u : Store}

theorem refl (s : Store) : s.GrowsTo s :=
  fun _ _ h => h

theorem trans (h : s.GrowsTo t) (h' : t.GrowsTo u) : s.GrowsTo u :=
  fun key f hkey => h' key f (h key f hkey)

theorem has (h : s.GrowsTo t) {key : String} (hkey : s.has key = true) : t.has key = true := by
  obtain ⟨f, hf⟩ := has_iff_exists.mp hkey
  exact has_iff_exists.mpr ⟨f, h key f hf⟩

theorem value? (h : s.GrowsTo t) {key : String} {x : Float} (hkey : s.value? key = some x) :
    t.value? key = some x := by
  obtain ⟨f, hf, hvalue⟩ := Option.map_eq_some_iff.mp hkey
  exact Option.map_eq_some_iff.mpr ⟨f, h key f hf, hvalue⟩

end GrowsTo

/-- A store with the fluents that some effects are on. -/
def provideAll (s : Store) (settings : FluentSettings) (effects : List Effect) : Store :=
  effects.foldl (fun s e => s.provide settings e.fluent) s

variable (settings : FluentSettings)

theorem growsTo_provide (s : Store) (key : String) : s.GrowsTo (s.provide settings key) :=
  fun _ _ h => get?_provide h settings key

theorem growsTo_provideAll (s : Store) (effects : List Effect) :
    s.GrowsTo (s.provideAll settings effects) := by
  induction effects generalizing s with
  | nil => exact GrowsTo.refl s
  | cons e rest ih => exact (growsTo_provide settings s e.fluent).trans (ih _)

theorem has_provideAll (s : Store) {effects : List Effect} {e : Effect} (h : e ∈ effects) :
    (s.provideAll settings effects).has e.fluent = true := by
  induction effects generalizing s with
  | nil => cases h
  | cons first rest ih =>
    rcases List.mem_cons.mp h with rfl | h
    · exact (growsTo_provideAll settings _ rest).has (s.has_provide settings e.fluent)
    · exact ih _ h

theorem mem_keys_provideAll {settings : FluentSettings} {s : Store} {effects : List Effect}
    {key : String} (h : key ∈ (s.provideAll settings effects).keys) :
    key ∈ s.keys ∨ ∃ e ∈ effects, e.fluent = key := by
  induction effects generalizing s with
  | nil => exact .inl h
  | cons first rest ih =>
    rcases ih h with hprovided | ⟨e, he, hkey⟩
    · rcases mem_keys_provide hprovided with hown | hkey
      · exact .inr ⟨first, List.mem_cons_self, hown.symm⟩
      · exact .inl hkey
    · exact .inr ⟨e, List.mem_cons_of_mem _ he, hkey⟩

end Store

/-! ## The store of a plan -/

namespace Resolution

variable (settings : FluentSettings) (domain : Option Domain)

theorem perAction_ofActions_cons (s : Store) (action : Action) (rest : List Action) :
    (ofActions settings domain s (action :: rest)).perAction =
      action.resolve settings domain s ::
        (ofActions settings domain
          (s.provideAll settings (action.resolve settings domain s)) rest).perAction :=
  rfl

/-- The store before an action is the one that the actions before it have left. -/
theorem store_ofActions_append (s : Store) (first second : List Action) :
    (ofActions settings domain s (first ++ second)).store =
      (ofActions settings domain (ofActions settings domain s first).store second).store := by
  induction first generalizing s with
  | nil => rfl
  | cons action rest ih => exact ih _

theorem growsTo_ofActions (s : Store) (actions : List Action) :
    s.GrowsTo (ofActions settings domain s actions).store := by
  induction actions generalizing s with
  | nil => exact Store.GrowsTo.refl s
  | cons action rest ih => exact (Store.growsTo_provideAll settings s _).trans (ih _)

theorem length_perAction_ofActions (s : Store) (actions : List Action) :
    (ofActions settings domain s actions).perAction.length = actions.length := by
  induction actions generalizing s with
  | nil => rfl
  | cons action rest ih => simp [perAction_ofActions_cons, ih]

/-- Every effect finds its fluent in the store of the plan. -/
theorem has_of_mem_perAction {s : Store} {actions : List Action} {effects : List Effect} {e : Effect}
    (heffects : effects ∈ (ofActions settings domain s actions).perAction) (he : e ∈ effects) :
    (ofActions settings domain s actions).store.has e.fluent = true := by
  induction actions generalizing s with
  | nil => cases heffects
  | cons action rest ih =>
    rw [perAction_ofActions_cons] at heffects
    rcases List.mem_cons.mp heffects with rfl | hrest
    · have hown := s.has_provideAll settings he
      exact (growsTo_ofActions settings domain _ rest).has hown
    · exact ih hrest

/-- Nothing but the effects adds fluents. -/
theorem mem_keys_ofActions {s : Store} {actions : List Action} {key : String}
    (h : key ∈ (ofActions settings domain s actions).store.keys) :
    key ∈ s.keys ∨ ∃ effects ∈ (ofActions settings domain s actions).perAction,
      ∃ e ∈ effects, e.fluent = key := by
  induction actions generalizing s with
  | nil => exact .inl h
  | cons action rest ih =>
    rw [perAction_ofActions_cons]
    rcases ih h with hprovided | ⟨effects, heffects, he⟩
    · rcases Store.mem_keys_provideAll hprovided with hkey | he
      · exact .inl hkey
      · exact .inr ⟨_, List.mem_cons_self, he⟩
    · exact .inr ⟨effects, List.mem_cons_of_mem _ heffects, he⟩

end Resolution

/-! ## Amounts -/

namespace Expression

variable {lookup larger : String → Option Float}

mutual

/-- What has a value keeps it when more names have values. -/
theorem evaluate_mono (h : ∀ key x, lookup key = some x → larger key = some x) :
    ∀ (e : Expression) {x : Float}, e.evaluate lookup = some x → e.evaluate larger = some x
  | .number _, _, hvalue => hvalue
  | .fluent _ _, _, hvalue => h _ _ hvalue
  | .variable _, _, hvalue => h _ _ hvalue
  | .operation operator operands, _, hvalue => by
    rw [evaluate] at hvalue ⊢
    obtain ⟨values, hvalues, hcombine⟩ := Option.bind_eq_some_iff.mp hvalue
    rw [evaluateAll_mono h operands hvalues]
    exact hcombine

/-- What have values keep them when more names have values. -/
theorem evaluateAll_mono (h : ∀ key x, lookup key = some x → larger key = some x) :
    ∀ (operands : List Expression) {values : List Float},
      evaluateAll lookup operands = some values → evaluateAll larger operands = some values
  | [], _, hvalues => hvalues
  | first :: rest, _, hvalues => by
    rw [evaluateAll] at hvalues ⊢
    cases hfirst : first.evaluate lookup with
    | none => simp [hfirst] at hvalues
    | some x =>
      cases hrest : evaluateAll lookup rest with
      | none => simp [hfirst, hrest] at hvalues
      | some others =>
        rw [evaluate_mono h first hfirst, evaluateAll_mono h rest hrest]
        simpa [hfirst, hrest] using hvalues

end

end Expression

/-- An amount keeps its value while the store grows. -/
theorem Effect.amountIn?_of_growsTo {s t : Store} (h : s.GrowsTo t) {e : Effect} {x : Float}
    (hamount : e.amountIn? s = some x) : e.amountIn? t = some x :=
  Expression.evaluate_mono (fun _ _ hkey => h.value? hkey) e.amount hamount

end PlanPlayback
