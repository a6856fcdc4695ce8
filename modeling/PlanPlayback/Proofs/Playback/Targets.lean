import PlanPlayback.Proofs.Playback.Growth
import PlanPlayback.Proofs.Playback.Rewind
import PlanPlayback.Proofs.Playback.Together

/-!
# Every effect finds its fluent

A plan is loaded with the fluents that its effects are on, and while it is played no fluent comes or
goes.  So an effect that changes nothing is one without an amount, never one without a fluent.

## Strategy

The keys of a player are the keys that it was loaded with, since writing and going back to the
initial values keep them (`Player.keys_run`).  The effects of an event are those of an action
(`Player.exists_effects_of_mem`), and their fluents were provided when the action was resolved
(`Plan.has_of_mem_perAction`).

* `Settling` is an event that is settled, together with the fluents that it finds;
* `Player.settlings` are those of a visit, in order;
* `Player.effects_find_their_fluents` is the result.
-/

namespace PlanPlayback

/-! ## The effects of a plan -/

namespace Plan

variable (plan : Plan) (context : Context) (settings : FluentSettings)

theorem length_perAction_resolve :
    (plan.resolve context settings).perAction.length = plan.actions.length := by
  unfold resolve
  split
  · exact List.length_map _
  · exact Resolution.length_perAction_ofActions settings context.domain _ plan.actions

theorem has_of_mem_perAction {effects : List Effect} {e : Effect}
    (heffects : effects ∈ (plan.resolve context settings).perAction) (he : e ∈ effects) :
    (plan.resolve context settings).store.has e.fluent = true := by
  unfold resolve at heffects ⊢
  split at heffects
  · -- the actions of a classical plan have no effects
    obtain ⟨action, -, rfl⟩ := List.mem_map.mp heffects
    cases he
  · rename_i hnumeric
    rw [if_neg hnumeric]
    exact Resolution.has_of_mem_perAction settings context.domain heffects he

end Plan

theorem exists_effects_of_mem_effectsAt {resolution : Resolution} {position : Nat} {e : Effect}
    (h : e ∈ resolution.effectsAt position) : ∃ effects ∈ resolution.perAction, e ∈ effects := by
  unfold Resolution.effectsAt at h
  cases hposition : resolution.perAction[position]? with
  | none =>
    rw [hposition] at h
    cases h
  | some effects =>
    rw [hposition] at h
    exact ⟨effects, List.mem_of_getElem? hposition, h⟩

/-- The effects of an event are those of an action, if it has any. -/
theorem Schedule.effects_of_mem_ofPlan {plan : Plan} {resolution : Resolution} {event : Event}
    (h : event ∈ (ofPlan plan resolution).events) {e : Effect} (he : e ∈ event.effects) :
    ∃ effects ∈ resolution.perAction, e ∈ effects := by
  obtain ⟨action, -, own, hevent⟩ := mem_eventsFrom h
  rcases effects_eq_of_mem_eventsOf hevent with hnone | hall
  · rw [hnone] at he
    cases he
  · rw [hall] at he
    exact exists_effects_of_mem_effectsAt he

/-! ## Playing the plan -/

/-- An event that is settled, and the fluents that it finds. -/
structure Settling where
  event : Event
  store : Store
  deriving Repr

/-- Events that are settled in turn: each finds the fluents as the ones before have left them. -/
def settlingsOf : List Event → Store → List Settling
  | [], _ => []
  | event :: rest, s => ⟨event, s⟩ :: settlingsOf rest (s.settle event)

theorem Store.keys_settle (s : Store) (event : Event) : (s.settle event).keys = s.keys :=
  s.keys_applyTogether event.effects

theorem mem_settlingsOf {events : List Event} {s : Store} {x : Settling}
    (h : x ∈ settlingsOf events s) : x.event ∈ events ∧ x.store.keys = s.keys := by
  induction events generalizing s with
  | nil => cases h
  | cons event rest ih =>
    rcases List.mem_cons.mp h with rfl | h
    · exact ⟨List.mem_cons_self, rfl⟩
    · obtain ⟨hevent, hkeys⟩ := ih h
      exact ⟨List.mem_cons_of_mem _ hevent, hkeys.trans (s.keys_settle event)⟩

namespace Player

/-- The events that a visit of the schedule settles, with the fluents that they find. -/
def settlings (p : Player) (v : Visit) : List Settling :=
  settlingsOf (p.schedule.events.filter v.completes) p.store

theorem keys_visited (p : Player) (v : Visit) : (p.visited v).store.keys = p.store.keys :=
  Store.foldl_settle_induction (motive := fun s => s.keys = p.store.keys)
    (fun s key update amount h => (s.keys_write key update amount).trans h) rfl _

theorem keys_atPlay (p : Player) : p.atPlay.store.keys = p.store.keys := by
  unfold atPlay
  split
  · exact p.store.keys_reset
  · rfl

/-- No operation lets a fluent come or go. -/
theorem keys_perform (p : Player) (c : Control) : (p.perform c).store.keys = p.store.keys := by
  cases c with
  | play =>
    cases hplan : p.plan.isNone with
    | true => rw [perform_play_of_no_plan hplan]; rfl
    | false =>
      rw [perform_play hplan, keys_visited]
      exact p.keys_atPlay
  | reset => exact p.store.keys_reset
  | seek time => rw [perform_seek, keys_visited]; rfl
  | advance nanoseconds => rw [perform_advance, keys_visited]; rfl
  | tick now => rw [perform_tick, keys_visited]; rfl
  | pause | setSpeed speed => rfl

theorem keys_run (p : Player) (controls : List Control) :
    (p.run controls).store.keys = p.store.keys := by
  induction controls generalizing p with
  | nil => rfl
  | cons c rest ih => exact (ih (p.perform c)).trans (p.keys_perform c)

/-- The effects of an event are those of an action of the plan, however far the event has got. -/
theorem exists_effects_of_mem (p : Player) (plan : Plan) (context : Context)
    (controls : List Control) {event : Event}
    (h : event ∈ ((p.load plan context).1.run controls).schedule.events) {e : Effect}
    (he : e ∈ event.effects) :
    ∃ effects ∈ (plan.resolve context p.settings).perAction, e ∈ effects := by
  have hsame := (SamePlan.run (p.load plan context).1 controls).events
  have hrewind : event.rewind ∈ (p.load plan context).1.schedule.rewind.events :=
    hsame ▸ List.mem_map_of_mem h
  obtain ⟨first, hfirst, heq⟩ := List.mem_map.mp hrewind
  have heffects : first.rewind.effects = event.rewind.effects := congrArg Event.effects heq
  have hmem : e ∈ first.rewind.effects := heffects ▸ he
  exact Schedule.effects_of_mem_ofPlan hfirst hmem

/-- **Every effect finds its fluent.**  Every action of a plan is given a list of effects, and every
one of them has its fluent, under its own name, in the store that the plan is loaded with.  Whatever
is done with the player, it has exactly these fluents.  So, of an event that is settled on the way,
all effects that have an amount are applied. -/
theorem effects_find_their_fluents (p : Player) (plan : Plan) (context : Context) :
    let resolution := plan.resolve context p.settings
    let loaded := (p.load plan context).1
    resolution.perAction.length = plan.actions.length ∧
      (∀ effects ∈ resolution.perAction, ∀ e ∈ effects,
        ∃ f, resolution.store.get? e.fluent = some f ∧ f.name = e.fluent) ∧
      ∀ controls, (loaded.run controls).store.keys = resolution.store.keys ∧
        ∀ v, ∀ x ∈ (loaded.run controls).settlings v,
          x.store.keys = resolution.store.keys ∧
            (∀ e ∈ x.event.effects, x.store.has e.fluent = true) ∧
            (x.store.applyTogether x.event.effects).count =
              x.event.effects.countP fun e => (e.amountIn? x.store).isSome := by
  intro resolution loaded
  refine ⟨plan.length_perAction_resolve context p.settings, fun effects heffects e he => ?_,
    fun controls => ?_⟩
  · obtain ⟨f, hf⟩ := Store.has_iff_exists.mp
      (plan.has_of_mem_perAction context p.settings heffects he)
    exact ⟨f, hf, Store.name_of_get? hf⟩
  · have hkeys : (loaded.run controls).store.keys = resolution.store.keys :=
      loaded.keys_run controls
    refine ⟨hkeys, fun v x hx => ?_⟩
    obtain ⟨hevent, hfound⟩ := mem_settlingsOf hx
    have hstore : x.store.keys = resolution.store.keys := hfound.trans hkeys
    have hthere : ∀ e ∈ x.event.effects, x.store.has e.fluent = true := by
      intro e he
      obtain ⟨effects, heffects, hmem⟩ :=
        p.exists_effects_of_mem plan context controls (List.mem_filter.mp hevent).1 he
      rw [Store.has_congr hstore]
      exact plan.has_of_mem_perAction context p.settings heffects hmem
    refine ⟨hstore, hthere, ?_⟩
    rw [Store.count_applyTogether]
    refine List.countP_congr fun e he => ?_
    rw [Store.canApply, hthere e he, Bool.and_true]

/-- Every customer takes something from the stock of a shop. -/
def market : Domain :=
  { actions := [{ name := "serve", kind := .action, parameters := [⟨"?shop", rootType⟩],
                  numericEffects := [⟨"stock", ["?shop"], .decrease, .number 1.0, .instant⟩] }] }

/-- An action with a printed effect, one with a declared effect and one with a fallback. -/
def errands : Plan :=
  { dialect := .numeric
    actions :=
      [{ Action.make "pay" ["bank"] 0.0 1.0 with effects := [⟨"gold(bank)", .increase, 5.0⟩] },
        Action.make "serve" ["bakery"] 1.0 1.0,
        Action.make "drive" ["rover"] 2.0 1.0]
    totalDuration := 3.0, cost := 3.0, statistics := {} }

/-- The effects of all three sources find their fluents, also when the plan is played once more. -/
theorem errands_find_their_fluents :
    let resolution := errands.resolve { domain := some market } {}
    let loaded := ((ofSettings {}).load errands { domain := some market }).1
    let controls : List Control := [.seek 3.0, .reset]
    resolution.perAction.length = 3 ∧
      resolution.store.keys = ["battery(rover)", "gold(bank)", "stock(bakery)"] ∧
      (loaded.run controls).store.keys = ["battery(rover)", "gold(bank)", "stock(bakery)"] ∧
      ((loaded.run controls).settlings (.jump 3.0)).map (fun x => x.event.effects.length) =
        [0, 1, 0, 1, 0, 1] ∧
      ∀ x ∈ (loaded.run controls).settlings (.jump 3.0),
        (x.store.applyTogether x.event.effects).count =
          x.event.effects.countP fun e => (e.amountIn? x.store).isSome := by
  intro resolution loaded controls
  obtain ⟨hlength, -, hplayed⟩ :=
    effects_find_their_fluents (ofSettings {}) errands { domain := some market }
  obtain ⟨hkeys, hsettled⟩ := hplayed controls
  have hstart : resolution.store.keys = ["battery(rover)", "gold(bank)", "stock(bakery)"] := by
    decide +kernel
  refine ⟨hlength, hstart, hkeys.trans hstart, ?_, fun x hx => (hsettled _ x hx).2.2⟩
  decide +kernel

end Player

end PlanPlayback
