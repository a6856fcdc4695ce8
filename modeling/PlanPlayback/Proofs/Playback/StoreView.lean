import Mathlib.Data.List.Basic
import PlanPlayback.Playback.Store

/-!
# What is under a key

A store is read through `Store.get?`, the fluent under a key.  This file says what every operation
on a store does to this view: adding a fluent changes what is under its name and nothing else, and a
write or going back to the initial values leaves the keys as they are.

* `Store.has_iff_mem_keys`: there is a fluent under exactly the keys of a store;
* `Store.get?_insert_self` and `Store.get?_insert_of_ne`;
* `Store.has_provide` and `Store.get?_provide`: a fluent that is missing is made, and no other one
  is touched.
-/

namespace PlanPlayback

namespace Store

variable {s : Store} {key : String} {f : Fluent}

theorem has_iff_mem_keys : s.has key = true ↔ key ∈ s.keys := by
  simp [has, get?, keys]

theorem has_iff_exists : s.has key = true ↔ ∃ f, s.get? key = some f :=
  Option.isSome_iff_exists

/-- Under a key stands the fluent that is called so. -/
theorem name_of_get? (h : s.get? key = some f) : f.name = key := by
  simpa using List.find?_some h

/-! ## Changing values -/

theorem keys_map {change : Fluent → Fluent} (hname : ∀ f, (change f).name = f.name) (s : Store) :
    keys ⟨s.fluents.map change⟩ = s.keys := by
  rw [keys, List.map_map]
  exact List.map_congr_left fun f _ => hname f

@[simp] theorem keys_write (s : Store) (key : String) (update : Update) (amount : Float) :
    (s.write key update amount).keys = s.keys := by
  refine keys_map (fun f => ?_) s
  split <;> rfl

@[simp] theorem keys_reset (s : Store) : s.reset.keys = s.keys := by
  have hname : ∀ f : Fluent, f.reset.name = f.name := fun _ => rfl
  exact keys_map hname s

/-! ## Adding fluents -/

theorem find?_insertInto_self (f : Fluent) (fluents : List Fluent) :
    (insertInto f fluents).find? (fun g => g.name == f.name) = some f := by
  induction fluents with
  | nil => simp [insertInto]
  | cons first rest ih =>
    unfold insertInto
    split_ifs with hname hbefore
    · simp
    · simp
    · rw [List.find?_cons_of_neg (by simpa using Ne.symm hname)]
      exact ih

theorem find?_insertInto_of_ne (h : key ≠ f.name) (fluents : List Fluent) :
    (insertInto f fluents).find? (fun g => g.name == key) =
      fluents.find? fun g => g.name == key := by
  have hother : (f.name == key) = false := by simpa using Ne.symm h
  induction fluents with
  | nil => simp [insertInto, hother]
  | cons first rest ih =>
    unfold insertInto
    split_ifs with hname hbefore
    · -- the fluent that is replaced is not the one under the key
      simp [← hname, hother]
    · simp [hother]
    · simp [List.find?_cons, ih]

theorem get?_insert_self (s : Store) (f : Fluent) : (s.insert f).get? f.name = some f :=
  find?_insertInto_self f s.fluents

theorem get?_insert_of_ne (h : key ≠ f.name) (s : Store) : (s.insert f).get? key = s.get? key :=
  find?_insertInto_of_ne h s.fluents

theorem mem_keys_insert (h : key ∈ (s.insert f).keys) : key = f.name ∨ key ∈ s.keys := by
  by_cases hname : key = f.name
  · exact .inl hname
  · have hthere := has_iff_mem_keys.mpr h
    rw [has, get?_insert_of_ne hname] at hthere
    exact .inr (has_iff_mem_keys.mp hthere)

theorem name_ofKey (settings : FluentSettings) (key : String) (initial : Float) :
    (Fluent.ofKey settings key initial).name = key := by
  unfold Fluent.ofKey
  simp only
  split_ifs <;> rfl

theorem name_missing (settings : FluentSettings) (key : String) :
    (missing settings key).name = key := by
  unfold missing
  exact name_ofKey settings key _

theorem has_provide (s : Store) (settings : FluentSettings) (key : String) :
    (s.provide settings key).has key = true := by
  unfold provide
  split_ifs with hkey
  · exact hkey
  · have hself := s.get?_insert_self (missing settings key)
    rw [name_missing] at hself
    exact has_iff_exists.mpr ⟨_, hself⟩

theorem mem_keys_provide {settings : FluentSettings} {other : String}
    (h : key ∈ (s.provide settings other).keys) : key = other ∨ key ∈ s.keys := by
  unfold provide at h
  split_ifs at h
  · exact .inr h
  · rw [← name_missing settings other]
    exact mem_keys_insert h

/-- The problem states every fluent that a store is made of. -/
theorem mem_keys_ofProblem {settings : FluentSettings} {problem : Problem}
    (h : key ∈ (ofProblem settings problem).keys) :
    ∃ init ∈ problem.numericInit, init.key = key := by
  have hall : ∀ key ∈ (ofProblem settings problem).keys,
      ∃ init ∈ problem.numericInit, init.key = key := by
    unfold ofProblem
    refine List.foldlRecOn problem.numericInit _
      (motive := fun s : Store => ∀ key ∈ s.keys, ∃ init ∈ problem.numericInit, init.key = key) ?_ ?_
    · intro key hkey
      cases hkey
    · intro s hs init hinit key hkey
      rcases mem_keys_insert hkey with hname | hkey
      · exact ⟨init, hinit, by rw [hname, name_ofKey]⟩
      · exact hs key hkey
  exact hall key h

/-- Making a fluent leaves those that are there as they are. -/
theorem get?_provide (h : s.get? key = some f) (settings : FluentSettings) (other : String) :
    (s.provide settings other).get? key = some f := by
  unfold provide
  split_ifs with hother
  · exact h
  · have hne : key ≠ (missing settings other).name := by
      intro hname
      rw [hname, name_missing] at h
      exact hother (has_iff_exists.mpr ⟨f, h⟩)
    exact (get?_insert_of_ne hne s).trans h

end Store

end PlanPlayback
