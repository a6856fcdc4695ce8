import PlanPlayback.Proofs.Plan.Arrangement
import PlanPlayback.Proofs.Playback.Loading

/-!
# The events of a plan

Every action of a plan is shown as one event or two.  `Schedule.IsFanOutOf` says that nothing gets
mixed up on the way: events can be told apart by their identifiers, they come in the order of the
actions, no action is left out, and the events of an action carry exactly its numeric effects, all of
them in one event.

## Strategy

An action has three ways to be shown (`eventsOf_cases`), depending on whether its verb is numeric and
on whether it has effects; what its events carry is read off case by case.

An identifier is that of the action, a colon and the tag of a kind.  There is no colon in a tag, so
that the last colon of an identifier is where it was put together (`eventId_inj`), whatever the
action is called.  Hence events of different actions have different identifiers, as long as the
actions have.  In the same way an event belongs to one action only, and so the events of an action
can be recovered from all events (`filter_flatMap_of_nodup`).
-/

namespace PlanPlayback

/-! ## Lists -/

/-- A list is taken apart at the last place where an element stands. -/
theorem append_cons_inj_of_notMem {α : Type} {a : α} {front front' back back' : List α}
    (hback : a ∉ back) (hback' : a ∉ back') (h : front ++ a :: back = front' ++ a :: back') :
    front = front' ∧ back = back' := by
  rcases List.append_eq_append_iff.mp h with ⟨between, hfront, hrest⟩ | ⟨between, hfront, hrest⟩
  · cases between with
    | nil => exact ⟨by simpa using hfront.symm, by simpa using hrest⟩
    | cons first between =>
      have hmem : a ∈ back := by
        rw [(List.cons.inj hrest).2]
        simp
      exact absurd hmem hback
  · cases between with
    | nil => exact ⟨by simpa using hfront, by simpa using hrest.symm⟩
    | cons first between =>
      have hmem : a ∈ back' := by
        rw [(List.cons.inj hrest).2]
        simp
      exact absurd hmem hback'

/-- What was made from one element of a list can be recovered, if it tells where it comes from. -/
theorem filter_flatMap_of_nodup {α β κ : Type} [DecidableEq κ] {label : α → κ} {origin : β → κ}
    {f : α → List β} {l : List α} (horigin : ∀ x ∈ l, ∀ y ∈ f x, origin y = label x)
    (hnodup : (l.map label).Nodup) {x : α} (hx : x ∈ l) :
    (l.flatMap f).filter (fun y => origin y = label x) = f x := by
  induction l with
  | nil => cases hx
  | cons first rest ih =>
    rw [List.map_cons, List.nodup_cons] at hnodup
    have hother (z : α) (hz : z ∈ rest) : label z ≠ label first := fun heq =>
      hnodup.1 (heq ▸ List.mem_map_of_mem hz)
    rw [List.flatMap_cons, List.filter_append]
    rcases List.mem_cons.mp hx with rfl | hx
    · have hown : (f x).filter (fun y => origin y = label x) = f x := by
        refine List.filter_eq_self.mpr fun y hy => ?_
        exact decide_eq_true (horigin x List.mem_cons_self y hy)
      have hnone : (rest.flatMap f).filter (fun y => origin y = label x) = [] := by
        refine List.filter_eq_nil_iff.mpr fun y hy => ?_
        obtain ⟨z, hz, hy⟩ := List.mem_flatMap.mp hy
        rw [decide_eq_true_iff, horigin z (List.mem_cons_of_mem _ hz) y hy]
        exact hother z hz
      rw [hown, hnone, List.append_nil]
    · have hnone : (f first).filter (fun y => origin y = label x) = [] := by
        refine List.filter_eq_nil_iff.mpr fun y hy => ?_
        rw [decide_eq_true_iff, horigin first List.mem_cons_self y hy]
        exact (hother x hx).symm
      rw [hnone, List.nil_append]
      exact ih (fun z hz => horigin z (List.mem_cons_of_mem _ hz)) hnodup.2 hx

/-! ## The events of an action -/

section OfAction

variable (action : Action) (effects : List Effect)

theorem eventsOf_ne_nil : eventsOf action effects ≠ [] := by
  rcases eventsOf_cases action effects with h | ⟨-, ⟨-, h⟩ | ⟨-, h⟩⟩
  · simp [h]
  · simp [h]
  · simp [h]

/-- The events of an action carry its effects, neither more nor less. -/
theorem flatMap_effects_eventsOf : (eventsOf action effects).flatMap Event.effects = effects := by
  rcases eventsOf_cases action effects with h | ⟨hkind, ⟨hnone, h⟩ | ⟨-, h⟩⟩
  · rw [h, List.flatMap_singleton, effects_numericEvent]
  · rw [h, List.flatMap_singleton, effects_verbEvent hkind, hnone]
  · rw [h, List.flatMap_cons, List.flatMap_singleton, effects_verbEvent hkind,
      effects_numericEvent, List.nil_append]

/-- One event of an action at most carries effects. -/
theorem countP_effects_eventsOf :
    (eventsOf action effects).countP (fun event => !event.effects.isEmpty) ≤ 1 := by
  rcases eventsOf_cases action effects with h | ⟨hkind, ⟨-, h⟩ | ⟨-, h⟩⟩
  · rw [h]
    exact List.countP_le_length
  · rw [h]
    exact List.countP_le_length
  · rw [h, List.countP_cons_of_neg (by simp [effects_verbEvent hkind])]
    exact List.countP_le_length

theorem action_eq_of_mem_eventsOf {event : Event} (h : event ∈ eventsOf action effects) :
    event.action = action.id := by
  obtain ⟨kind, data, rfl⟩ := mem_eventsOf h
  rfl

/-! ## Identifiers -/

theorem colon_notMem_tag (kind : EventKind) : ':' ∉ kind.tag.toList := by
  cases kind <;> decide

theorem tag_injective : Function.Injective EventKind.tag := by
  intro first second h
  cases first <;> cases second <;> first | rfl | exact absurd h (by decide)

/-- An identifier says which action an event belongs to, and of which kind it is. -/
theorem eventId_inj {first second : String} {kind kind' : EventKind}
    (h : first ++ ":" ++ kind.tag = second ++ ":" ++ kind'.tag) :
    first = second ∧ kind = kind' := by
  have hchars : first.toList ++ ':' :: kind.tag.toList =
      second.toList ++ ':' :: kind'.tag.toList := by
    simpa using congrArg String.toList h
  obtain ⟨hfront, hback⟩ :=
    append_cons_inj_of_notMem (colon_notMem_tag kind) (colon_notMem_tag kind') hchars
  exact ⟨String.toList_inj.mp hfront, tag_injective (String.toList_inj.mp hback)⟩

theorem nodup_id_eventsOf : ((eventsOf action effects).map Event.id).Nodup := by
  rcases eventsOf_cases action effects with h | ⟨hkind, ⟨-, h⟩ | ⟨-, h⟩⟩
  · simp [h]
  · simp [h]
  · rw [h, List.map_cons, List.map_singleton, List.nodup_cons, List.mem_singleton]
    exact ⟨fun hid => hkind (eventId_inj hid).2, List.nodup_singleton _⟩

end OfAction

namespace Schedule

variable {resolution : Resolution}

/-! ## The events of a plan -/

theorem eventsFrom_eq_flatMap (position : ℕ) (actions : List Action) :
    eventsFrom resolution position actions =
      (actions.zipIdx position).flatMap fun x => eventsOf x.1 (resolution.effectsAt x.2) := by
  induction actions generalizing position with
  | nil => rfl
  | cons action rest ih => rw [eventsFrom, ih, List.zipIdx_cons, List.flatMap_cons]

/-- The events of an action among those of a schedule. -/
def eventsFor (s : Schedule) (action : Action) : List Event :=
  s.events.filter fun event => event.action = action.id

/-- What the events of a schedule have to do with the actions of a plan. -/
structure IsFanOutOf (s : Schedule) (plan : Plan) (resolution : Resolution) : Prop where
  distinct : (s.events.map Event.id).Nodup
  in_order : s.events = plan.actions.flatMap s.eventsFor
  shown : ∀ (i : ℕ) (h : i < plan.actions.length), s.eventsFor plan.actions[i] ≠ []
  whole : ∀ (i : ℕ) (h : i < plan.actions.length),
    (s.eventsFor plan.actions[i]).flatMap Event.effects = resolution.effectsAt i
  carried_once : ∀ (i : ℕ) (h : i < plan.actions.length),
    (s.eventsFor plan.actions[i]).countP (fun event => !event.effects.isEmpty) ≤ 1

variable {plan : Plan}

theorem nodup_id_zipIdx (hids : (plan.actions.map Action.id).Nodup) :
    (plan.actions.zipIdx.map fun x => x.1.id).Nodup := by
  have hmap : (plan.actions.zipIdx.map fun x => x.1.id) = plan.actions.map Action.id := by
    conv_rhs => rw [← List.zipIdx_map_fst 0 plan.actions, List.map_map]
    rfl
  rwa [hmap]

/-- The events of an action are those that were made for it. -/
theorem eventsFor_ofPlan (hids : (plan.actions.map Action.id).Nodup) {action : Action} {i : ℕ}
    (h : (action, i) ∈ plan.actions.zipIdx) :
    (ofPlan plan resolution).eventsFor action = eventsOf action (resolution.effectsAt i) := by
  rw [eventsFor, ofPlan, eventsFrom_eq_flatMap]
  exact filter_flatMap_of_nodup (f := fun x => eventsOf x.1 (resolution.effectsAt x.2))
    (fun x _ event hevent => action_eq_of_mem_eventsOf _ _ hevent) (nodup_id_zipIdx hids) h

theorem nodup_id_ofPlan (hids : (plan.actions.map Action.id).Nodup) :
    ((ofPlan plan resolution).events.map Event.id).Nodup := by
  rw [ofPlan, eventsFrom_eq_flatMap, List.map_flatMap, List.nodup_flatMap]
  refine ⟨fun x _ => nodup_id_eventsOf x.1 _, ?_⟩
  refine (List.pairwise_map.mp (nodup_id_zipIdx hids)).imp fun {x y} hne => ?_
  rw [Function.onFun, List.disjoint_left]
  intro id hx hy
  obtain ⟨first, hfirst, rfl⟩ := List.mem_map.mp hx
  obtain ⟨second, hsecond, hid⟩ := List.mem_map.mp hy
  obtain ⟨kind, data, rfl⟩ := mem_eventsOf hfirst
  obtain ⟨kind', data', rfl⟩ := mem_eventsOf hsecond
  exact hne (eventId_inj hid.symm).1

/-- The events of a plan are a fan-out of its actions, as long as these can be told apart. -/
theorem isFanOutOf_of_nodup (hids : (plan.actions.map Action.id).Nodup) :
    (ofPlan plan resolution).IsFanOutOf plan resolution := by
  have hevents (i : ℕ) (h : i < plan.actions.length) :
      (ofPlan plan resolution).eventsFor plan.actions[i] =
        eventsOf plan.actions[i] (resolution.effectsAt i) :=
    eventsFor_ofPlan hids (by simp [List.mem_zipIdx_iff_getElem?, h])
  refine ⟨nodup_id_ofPlan hids, ?in_order, ?shown, ?whole, ?carried_once⟩
  case in_order =>
    have hzip : plan.actions.flatMap (ofPlan plan resolution).eventsFor =
        plan.actions.zipIdx.flatMap fun x => (ofPlan plan resolution).eventsFor x.1 := by
      conv_lhs => rw [← List.zipIdx_map_fst 0 plan.actions, List.flatMap_map]
    rw [hzip]
    conv_lhs => rw [ofPlan, eventsFrom_eq_flatMap]
    exact List.flatMap_congr fun x hx => (eventsFor_ofPlan hids hx).symm
  case shown =>
    intro i h
    rw [hevents i h]
    exact eventsOf_ne_nil _ _
  case whole =>
    intro i h
    rw [hevents i h]
    exact flatMap_effects_eventsOf _ _
  case carried_once =>
    intro i h
    rw [hevents i h]
    exact countP_effects_eventsOf _ _

/-- **The events of a plan that was assembled are a fan-out of its actions.** -/
theorem isFanOutOf_ofPlan (dialect : Dialect) (actions : List Action) (statistics : Statistics)
    (resolution : Resolution) :
    (ofPlan (Plan.assemble dialect actions statistics) resolution).IsFanOutOf
      (Plan.assemble dialect actions statistics) resolution :=
  isFanOutOf_of_nodup (Plan.nodup_id_numbered 0 _)

end Schedule

end PlanPlayback
