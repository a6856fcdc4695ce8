import Mathlib.Data.List.Basic
import PlanPlayback.Playback.Player

/-!
# What a plan is loaded as

The events of a plan have not begun, and every fluent of its store has its initial value.

* `eventsOf_cases`: the ways in which an action is shown;
* `Schedule.exists_action_of_mem` and `Schedule.rewind_of_mem`: the events of a plan;
* `Store.Every` is kept by everything that adds fluents; hence `Plan.every_resolve` and
  `Plan.isInitial_resolve`.
-/

namespace PlanPlayback

/-! ## Events -/

section OfAction

variable (action : Action) (effects : List Effect)

/-- The event of the verb of an action. -/
def verbEvent : Event :=
  Event.ofAction action (EventKind.ofName action.name)
    (EventDetail.ofAction action (EventKind.ofName action.name) effects)

/-- The event that carries the numeric effects of an action. -/
def numericEvent : Event :=
  Event.ofAction action .numeric (.numeric effects)

/-- An action with a numeric verb is shown as one event.  Any other action has the event of its verb,
and a second one if it has effects. -/
theorem eventsOf_cases :
    eventsOf action effects = [numericEvent action effects] ∨
      (verbEvent action effects).kind ≠ .numeric ∧
        (effects = [] ∧ eventsOf action effects = [verbEvent action effects] ∨
          effects ≠ [] ∧ eventsOf action effects =
            [verbEvent action effects, numericEvent action effects]) := by
  have hkind : (verbEvent action effects).kind = EventKind.ofName action.name := rfl
  unfold eventsOf
  simp only [hkind]
  by_cases hnumeric : EventKind.ofName action.name = .numeric
  · left
    simp [hnumeric, numericEvent, EventDetail.ofAction]
  · right
    refine ⟨hnumeric, ?_⟩
    cases effects with
    | nil => exact .inl ⟨rfl, by simp [verbEvent]⟩
    | cons first rest => exact .inr ⟨nofun, by simp [hnumeric, verbEvent, numericEvent]⟩

variable {action effects}

/-- The events of an action are that of its verb and that of its effects. -/
theorem eq_of_mem_eventsOf {e : Event} (h : e ∈ eventsOf action effects) :
    e = numericEvent action effects ∨
      (verbEvent action effects).kind ≠ .numeric ∧ e = verbEvent action effects := by
  rcases eventsOf_cases action effects with heq | ⟨hkind, ⟨-, heq⟩ | ⟨-, heq⟩⟩
  · rw [heq] at h
    exact .inl (List.mem_singleton.mp h)
  · rw [heq] at h
    exact .inr ⟨hkind, List.mem_singleton.mp h⟩
  · rw [heq] at h
    rcases List.mem_cons.mp h with h | h
    · exact .inr ⟨hkind, h⟩
    · exact .inl (List.mem_singleton.mp h)

theorem mem_eventsOf {e : Event} (h : e ∈ eventsOf action effects) :
    ∃ kind data, e = Event.ofAction action kind data := by
  rcases eq_of_mem_eventsOf h with h | ⟨-, h⟩
  · exact ⟨_, _, h⟩
  · exact ⟨_, _, h⟩

theorem effects_numericEvent : (numericEvent action effects).effects = effects :=
  rfl

/-- Only a numeric event carries effects. -/
theorem effects_verbEvent (h : (verbEvent action effects).kind ≠ .numeric) :
    (verbEvent action effects).effects = [] := by
  unfold verbEvent at h ⊢
  generalize EventKind.ofName action.name = kind at h ⊢
  cases kind with
  | numeric => exact absurd rfl h
  | move | pick | drop | load | unload | custom => rfl

theorem effects_eq_of_mem_eventsOf {e : Event} (h : e ∈ eventsOf action effects) :
    e.effects = [] ∨ e.effects = effects := by
  rcases eq_of_mem_eventsOf h with rfl | ⟨hkind, rfl⟩
  · exact .inr effects_numericEvent
  · exact .inl (effects_verbEvent hkind)

end OfAction

namespace Schedule

/-- An event of a plan is one of an action of the plan, with the effects of this action. -/
theorem mem_eventsFrom {resolution : Resolution} {actions : List Action} {position : Nat}
    {e : Event} (h : e ∈ eventsFrom resolution position actions) :
    ∃ action ∈ actions, ∃ own, e ∈ eventsOf action (resolution.effectsAt own) := by
  induction actions generalizing position with
  | nil => cases h
  | cons action rest ih =>
    rcases List.mem_append.mp h with h | h
    · exact ⟨action, List.mem_cons_self, position, h⟩
    · obtain ⟨other, hother, hevent⟩ := ih h
      exact ⟨other, List.mem_cons_of_mem _ hother, hevent⟩

theorem exists_ofAction_of_mem {plan : Plan} {resolution : Resolution} {e : Event}
    (h : e ∈ (ofPlan plan resolution).events) :
    ∃ action ∈ plan.actions, ∃ kind data, e = Event.ofAction action kind data := by
  obtain ⟨action, haction, own, hevent⟩ := mem_eventsFrom h
  exact ⟨action, haction, mem_eventsOf hevent⟩

/-- An event of a plan starts with an action of the plan. -/
theorem exists_action_of_mem {plan : Plan} {resolution : Resolution} {e : Event}
    (h : e ∈ (ofPlan plan resolution).events) :
    ∃ action ∈ plan.actions, e.start = action.start := by
  obtain ⟨action, haction, kind, data, rfl⟩ := exists_ofAction_of_mem h
  exact ⟨action, haction, rfl⟩

/-- The events of a plan have not begun. -/
theorem rewind_of_mem {plan : Plan} {resolution : Resolution} {e : Event}
    (h : e ∈ (ofPlan plan resolution).events) : e.rewind = e := by
  obtain ⟨action, -, kind, data, rfl⟩ := exists_ofAction_of_mem h
  rfl

end Schedule

/-! ## Fluents -/

theorem Fluent.value_ofKey (settings : FluentSettings) (key : String) (initial : Float) :
    (Fluent.ofKey settings key initial).value = (Fluent.ofKey settings key initial).initial := by
  unfold Fluent.ofKey
  simp only
  split_ifs <;> rfl

namespace Store

/-- Whether a condition holds of all fluents. -/
def Every (P : Fluent → Prop) (s : Store) : Prop :=
  ∀ f ∈ s.fluents, P f

/-- Whether all fluents have their initial values. -/
def IsInitial (s : Store) : Prop :=
  ∀ f ∈ s.fluents, f.value = f.initial

theorem mem_insertInto {f g : Fluent} {fluents : List Fluent} (h : g ∈ insertInto f fluents) :
    g = f ∨ g ∈ fluents := by
  induction fluents with
  | nil => exact Or.inl (List.mem_singleton.mp h)
  | cons first rest ih =>
    unfold insertInto at h
    split_ifs at h with hname hbefore
    · rcases List.mem_cons.mp h with h | h
      · exact Or.inl h
      · exact Or.inr (List.mem_cons_of_mem _ h)
    · exact (List.mem_cons.mp h)
    · rcases List.mem_cons.mp h with h | h
      · exact Or.inr (h ▸ List.mem_cons_self)
      · exact (ih h).imp_right (List.mem_cons_of_mem _)

section Every

variable {P : Fluent → Prop} {s : Store} {settings : FluentSettings}

theorem every_empty : Every P {} :=
  nofun

theorem Every.insert (h : s.Every P) {f : Fluent} (hf : P f) : (s.insert f).Every P := by
  intro g hg
  rcases mem_insertInto hg with rfl | hg
  · exact hf
  · exact h g hg

variable (hkey : ∀ key initial, P (Fluent.ofKey settings key initial))
include hkey

theorem Every.provide (h : s.Every P) (key : String) : (s.provide settings key).Every P := by
  unfold Store.provide
  split
  · exact h
  · refine h.insert ?_
    unfold missing
    exact hkey key _

theorem every_ofProblem (problem : Problem) : (ofProblem settings problem).Every P := by
  unfold ofProblem
  exact List.foldlRecOn problem.numericInit _ every_empty fun _ h init _ => h.insert (hkey _ _)

end Every

/-- Restoring the initial values changes nothing where they are. -/
theorem IsInitial.reset {s : Store} (h : s.IsInitial) : s.reset = s := by
  have hmap : s.fluents.map Fluent.reset = s.fluents.map id :=
    List.map_congr_left fun f hf => by
      rcases f with ⟨name, value, initial, least, greatest, unit, owner, kind⟩
      have hvalue : value = initial := h _ hf
      rw [Fluent.reset, hvalue]
      rfl
  rw [Store.reset, hmap, List.map_id]

end Store

section Resolution

variable {P : Fluent → Prop} {settings : FluentSettings}
  (hkey : ∀ key initial, P (Fluent.ofKey settings key initial))
include hkey

theorem Resolution.every_ofActions (domain : Option Domain) {s : Store} (h : s.Every P)
    (actions : List Action) : (ofActions settings domain s actions).store.Every P := by
  induction actions generalizing s with
  | nil => exact h
  | cons action rest ih =>
    exact ih (List.foldlRecOn _ _ h fun _ h effect _ => h.provide hkey effect.fluent)

/-- What holds of every fluent that is made for a key holds of all fluents of a plan. -/
theorem Plan.every_resolve (plan : Plan) (context : Context) :
    (plan.resolve context settings).store.Every P := by
  unfold Plan.resolve
  split
  · exact Store.every_empty
  · refine Resolution.every_ofActions hkey _ ?_ _
    split
    · exact Store.every_ofProblem hkey _
    · exact Store.every_empty

end Resolution

/-- Every fluent of a plan has its initial value. -/
theorem Plan.isInitial_resolve (plan : Plan) (context : Context) (settings : FluentSettings) :
    (plan.resolve context settings).store.IsInitial :=
  Plan.every_resolve (P := fun f => f.value = f.initial) (Fluent.value_ofKey settings) plan context

end PlanPlayback
