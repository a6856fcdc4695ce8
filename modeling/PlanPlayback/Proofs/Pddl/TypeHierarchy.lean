import Mathlib.Data.Fintype.EquivFin
import Mathlib.Data.Set.Card
import Mathlib.Logic.Relation
import PlanPlayback.Pddl.Domain

/-!
# The hierarchy of types

A domain may declare a type several times, or in a circle, or not at all; what counts is the first
declaration of a name.  `Domain.Ascends` leads from a type to its declared parent, to the parent of
that, and so on, without bound and without regard to circles.

`Domain.climb` walks the same way in at most `climbLimit` steps and stops before a type that it has
met.  Nothing is missed by stopping early: from a type that has been met the walk would only repeat
itself (`climb_complete`).  So a bound on the number of different types on the way
(`Domain.IsWithinLimit`) is all that is needed for the walk to meet every one of them
(`mem_climb_iff`).

Every type is taken to be below `object`, whatever is declared.  This keeps the order transitive as
long as nothing else is above `object`, and only so long (`subtypes_close_declarations`).
-/

namespace PlanPlayback.Domain

variable {d : Domain} {name start current : String} {visited : List String} {steps : ℕ}

/-- Whether declared parents lead from one type to another, in one step or in several. -/
def Ascends (d : Domain) : String → String → Prop :=
  Relation.TransGen fun child parent => d.parent? child = some parent

/-- The other types that declared parents lead to from a type. -/
def above (d : Domain) (name : String) : Set String :=
  {ancestor | d.Ascends name ancestor ∧ ancestor ≠ name}

/-- Whether there are no more types above a type than a walk has steps. -/
def IsWithinLimit (d : Domain) (name : String) : Prop :=
  (d.above name).encard ≤ climbLimit

/-! ## The walk -/

theorem length_climb_le : (d.climb start visited current steps).length ≤ steps := by
  induction steps generalizing visited current with
  | zero => simp [climb]
  | succ steps ih =>
    rw [climb]
    split
    · simp
    · split
      · simp
      · exact Nat.succ_le_succ ih

/-- The walk only meets types above the one that it is at. -/
theorem ascends_of_mem_climb {ancestor : String}
    (h : ancestor ∈ d.climb start visited current steps) : d.Ascends current ancestor := by
  induction steps generalizing visited current with
  | zero => cases h
  | succ steps ih =>
    rw [climb] at h
    split at h
    · cases h
    next parent hparent =>
    split at h
    · cases h
    rcases List.mem_cons.mp h with rfl | h
    · exact .single hparent
    · exact .head hparent (ih h)

/-- The walk meets no type twice. -/
theorem nodup_climb (h : (start :: visited).Nodup) :
    (start :: (visited ++ d.climb start visited current steps)).Nodup := by
  induction steps generalizing visited current with
  | zero => simpa [climb] using h
  | succ steps ih =>
    rw [climb]
    split
    · simpa using h
    next parent _ =>
    split
    · simpa using h
    next hmet =>
    simp only [beq_iff_eq, List.contains_iff_mem, Bool.or_eq_true, not_or] at hmet
    have hlonger : (start :: (visited ++ [parent])).Nodup := by
      rw [← List.cons_append, List.nodup_append]
      refine ⟨h, List.nodup_singleton _, ?_⟩
      rintro met hmem _ hnew rfl
      obtain rfl := List.mem_singleton.mp hnew
      rcases List.mem_cons.mp hmem with heq | hmem
      · exact hmet.1 heq
      · exact hmet.2 hmem
    simpa using ih hlonger

theorem nodup_cons_climb : (name :: d.climb name [] name steps).Nodup := by
  simpa using @nodup_climb d name name [] steps (List.nodup_singleton name)

/-- If steps are left over, then the parent of every type met is a type met: the walk has stopped at
a type without a parent, or before a type that it has met. -/
theorem parent_mem_of_length_climb_lt
    (hshort : (d.climb start visited current steps).length < steps) {child parent : String}
    (hchild : child ∈ current :: d.climb start visited current steps)
    (hparent : d.parent? child = some parent) :
    parent ∈ start :: (visited ++ d.climb start visited current steps) := by
  induction steps generalizing visited current with
  | zero => cases hshort
  | succ steps ih =>
    rw [climb] at hshort hchild ⊢
    split at hshort
    next hnone =>
      simp only [hnone] at hchild ⊢
      obtain rfl := List.mem_singleton.mp hchild
      rw [hnone] at hparent
      cases hparent
    next next hnext =>
    simp only [hnext] at hchild ⊢
    split at hshort
    next hmet =>
      simp only [hmet, if_true] at hchild ⊢
      obtain rfl := List.mem_singleton.mp hchild
      obtain rfl := Option.some.inj (hnext.symm.trans hparent)
      simpa using hmet
    next hmet =>
      simp only [hmet] at hchild ⊢
      rcases List.mem_cons.mp hchild with rfl | hchild
      · obtain rfl := Option.some.inj (hnext.symm.trans hparent)
        simp
      · have hmem := ih (Nat.lt_of_succ_lt_succ hshort) hchild
        simpa using hmem

/-- With steps left over, the walk meets every type above its start. -/
theorem climb_complete (hshort : (d.climb name [] name steps).length < steps) {ancestor : String}
    (h : d.Ascends name ancestor) : ancestor ∈ name :: d.climb name [] name steps := by
  induction h with
  | single hparent => exact parent_mem_of_length_climb_lt hshort (by simp) hparent
  | tail _ hparent ih => exact parent_mem_of_length_climb_lt hshort ih hparent

/-- Without steps left over, the walk has met as many types as there can be above its start. -/
theorem mem_climb_of_length_eq (hlimit : d.IsWithinLimit name)
    (hfull : (d.climb name [] name climbLimit).length = climbLimit) {ancestor : String}
    (h : ancestor ∈ d.above name) : ancestor ∈ d.climb name [] name climbLimit := by
  set walk := d.climb name [] name climbLimit
  obtain ⟨hname, hdistinct⟩ : name ∉ walk ∧ walk.Nodup := List.nodup_cons.mp nodup_cons_climb
  have hsub : (walk.toFinset : Set String) ⊆ d.above name := by
    intro met hmet
    have hmem : met ∈ walk := by simpa using hmet
    exact ⟨ascends_of_mem_climb hmem, fun heq => hname (heq ▸ hmem)⟩
  have hcard : (d.above name).encard ≤ (walk.toFinset : Set String).encard := by
    rw [Set.encard_coe_eq_coe_finsetCard, List.toFinset_card_of_nodup hdistinct, hfull]
    exact hlimit
  have hall : (walk.toFinset : Set String) = d.above name :=
    walk.toFinset.finite_toSet.eq_of_subset_of_encard_le hsub hcard
  rw [← hall] at h
  simpa using h

/-- **The walk meets the types above its start**, all of them and no others. -/
theorem mem_climb_iff (hlimit : d.IsWithinLimit name) {ancestor : String} :
    ancestor ∈ d.climb name [] name climbLimit ↔ ancestor ∈ d.above name := by
  constructor
  · exact fun h => ⟨ascends_of_mem_climb h,
      fun heq => (List.nodup_cons.mp nodup_cons_climb).1 (heq ▸ h)⟩
  · intro h
    rcases (length_climb_le : (d.climb name [] name climbLimit).length ≤ _).lt_or_eq
      with hshort | hfull
    · exact (List.mem_cons.mp (climb_complete hshort h.1)).resolve_left h.2
    · exact mem_climb_of_length_eq hlimit hfull h

/-- A domain with few declarations has few types above any type. -/
theorem isWithinLimit_of_length_types_le (h : d.types.length ≤ climbLimit) (name : String) :
    d.IsWithinLimit name := by
  have hdeclared : d.above name ⊆ ((d.types.filterMap TypeDecl.parent).toFinset : Set String) := by
    rintro ancestor ⟨hascends, -⟩
    obtain ⟨child, -, hparent⟩ := Relation.TransGen.tail'_iff.mp hascends
    obtain ⟨decl, hdecl, hparent⟩ := Option.bind_eq_some_iff.mp hparent
    have hmem : decl ∈ d.types := List.mem_of_find?_eq_some hdecl
    simpa using ⟨decl, hmem, hparent⟩
  calc (d.above name).encard
      ≤ ((d.types.filterMap TypeDecl.parent).toFinset : Set String).encard :=
        Set.encard_le_encard hdeclared
    _ = (d.types.filterMap TypeDecl.parent).toFinset.card := Set.encard_coe_eq_coe_finsetCard _
    _ ≤ climbLimit := by
        exact_mod_cast (List.toFinset_card_le _).trans ((List.length_filterMap_le _ _).trans h)

/-! ## Subtypes -/

theorem mem_ancestors_iff {ancestor : String} :
    ancestor ∈ d.ancestors name ↔
      ancestor ∈ d.climb name [] name climbLimit ∨ ancestor = rootType ∧ name ≠ rootType := by
  unfold ancestors
  by_cases hlast : (d.climb name [] name climbLimit).getLast? = some rootType
  · have hroot : rootType ∈ d.climb name [] name climbLimit := List.mem_of_getLast? hlast
    simp only [hlast, bne_self_eq_false, Bool.false_and, Bool.false_eq_true, if_false]
    refine ⟨.inl, ?_⟩
    rintro (h | ⟨rfl, -⟩)
    · exact h
    · exact hroot
  · by_cases hname : name = rootType
    · simp [hname]
    · simp [hlast, hname]

theorem isSubtype_iff (hlimit : d.IsWithinLimit name) {ancestor : String} :
    d.isSubtype name ancestor = true ↔
      name = ancestor ∨ ancestor = rootType ∨ d.Ascends name ancestor := by
  rw [isSubtype, Bool.or_eq_true, beq_iff_eq, List.contains_iff_mem, mem_ancestors_iff,
    mem_climb_iff hlimit]
  constructor
  · rintro (rfl | ⟨hascends, -⟩ | ⟨rfl, -⟩)
    · exact .inl rfl
    · exact .inr (.inr hascends)
    · exact .inr (.inl rfl)
  · intro h
    by_cases hsame : name = ancestor
    · exact .inl hsame
    · rcases h.resolve_left hsame with rfl | hascends
      · exact .inr (.inr ⟨rfl, hsame⟩)
      · exact .inr (.inl ⟨hascends, Ne.symm hsame⟩)

/-- Whether no declaration puts another type above `object`. -/
def KeepsRoot (d : Domain) : Prop :=
  ∀ parent, d.parent? rootType = some parent → parent = rootType

theorem KeepsRoot.eq_of_ascends (h : d.KeepsRoot) {ancestor : String}
    (hascends : d.Ascends rootType ancestor) : ancestor = rootType := by
  induction hascends with
  | single hparent => exact h _ hparent
  | tail _ hparent ih => exact h _ (ih ▸ hparent)

/-- Some type is not declared. -/
theorem exists_parent?_eq_none (d : Domain) (other : String) :
    ∃ name, d.parent? name = none ∧ name ≠ other ∧ name ≠ rootType := by
  obtain ⟨name, hname⟩ :=
    Infinite.exists_notMem_finset (other :: rootType :: d.types.map TypeDecl.name).toFinset
  simp only [List.mem_toFinset, List.mem_cons, not_or, List.mem_map, not_exists, not_and] at hname
  refine ⟨name, ?_, hname.1, hname.2.1⟩
  have hnone : d.typeDecl? name = none :=
    List.find?_eq_none.mpr fun decl hdecl => by simpa using hname.2.2 decl hdecl
  rw [parent?, hnone]
  rfl

/-- **Subtyping is the closure of the declarations.**  Below a type are the type itself and every
type from which declared parents lead to it, and below `object` is every type.  Where this holds of
all names the order is reflexive; it is transitive exactly if no declaration puts another type above
`object`. -/
theorem subtypes_close_declarations (d : Domain) :
    (∀ child, d.IsWithinLimit child → ∀ ancestor,
      (d.isSubtype child ancestor = true ↔
        child = ancestor ∨ ancestor = rootType ∨ d.Ascends child ancestor)) ∧
    ((∀ name, d.IsWithinLimit name) →
      (∀ name, d.isSubtype name name = true) ∧
      ((∀ low middle high, d.isSubtype low middle = true → d.isSubtype middle high = true →
        d.isSubtype low high = true) ↔ d.KeepsRoot)) := by
  refine ⟨fun child hlimit ancestor => isSubtype_iff hlimit, fun hlimit => ⟨fun name => ?_, ?_⟩⟩
  · exact (isSubtype_iff (hlimit name)).mpr (.inl rfl)
  simp only [fun low high => @isSubtype_iff d low (hlimit low) high]
  constructor
  · intro htrans parent hparent
    by_contra hne
    obtain ⟨low, hnone, hlow, -⟩ := d.exists_parent?_eq_none parent
    -- an undeclared type is below the root and below nothing else
    rcases htrans low rootType parent (.inr (.inl rfl)) (.inr (.inr (.single hparent)))
      with heq | heq | hascends
    · exact hlow heq
    · exact hne heq
    · obtain ⟨next, hnext, -⟩ := Relation.TransGen.head'_iff.mp hascends
      rw [hnone] at hnext
      cases hnext
  · rintro hroot low middle high (rfl | rfl | hlow) hhigh
    · exact hhigh
    · rcases hhigh with heq | heq | hascends
      · exact .inr (.inl heq.symm)
      · exact .inr (.inl heq)
      · exact .inr (.inl (hroot.eq_of_ascends hascends))
    · rcases hhigh with rfl | rfl | hascends
      · exact .inr (.inr hlow)
      · exact .inr (.inl rfl)
      · exact .inr (.inr (.trans hlow hascends))

/-- Types of a fleet, some of them in a circle, with a second declaration that does not count. -/
def fleet : Domain :=
  { types := [⟨"barge", some "boat"⟩, ⟨"boat", some "ship"⟩, ⟨"ship", some "boat"⟩,
      ⟨"barge", some "house"⟩, ⟨"object", some "object"⟩] }

/-- A barge is a ship, though the types above it are in a circle; the types of the fleet are in
order. -/
theorem fleet_subtypes_close_declarations :
    (∀ name, fleet.IsWithinLimit name) ∧
    fleet.isSubtype "barge" "ship" = true ∧
    (∀ name, fleet.isSubtype name name = true) ∧
    (∀ low middle high, fleet.isSubtype low middle = true → fleet.isSubtype middle high = true →
      fleet.isSubtype low high = true) := by
  have hlimit : ∀ name, fleet.IsWithinLimit name := isWithinLimit_of_length_types_le (by decide)
  have hbarge : fleet.parent? "barge" = some "boat" := by decide
  have hboat : fleet.parent? "boat" = some "ship" := by decide
  have hroot : fleet.parent? rootType = some rootType := by decide
  have hkeeps : fleet.KeepsRoot := fun parent hparent =>
    (Option.some.inj (hroot.symm.trans hparent)).symm
  obtain ⟨hclosure, horder⟩ := subtypes_close_declarations fleet
  exact ⟨hlimit,
    (hclosure "barge" (hlimit _) "ship").mpr (.inr (.inr (.head hbarge (.single hboat)))),
    (horder hlimit).1, (horder hlimit).2.mpr hkeeps⟩

/-- Types of a yard, with one above `object`. -/
def yard : Domain :=
  { types := [⟨"object", some "thing"⟩, ⟨"truck", none⟩] }

/-- A truck is an object and an object is a thing, but a truck is not a thing. -/
theorem not_subtypes_transitive :
    ¬∀ d : Domain, (∀ name, d.IsWithinLimit name) →
      ∀ low middle high, d.isSubtype low middle = true → d.isSubtype middle high = true →
        d.isSubtype low high = true := by
  intro h
  have hlimit : ∀ name, yard.IsWithinLimit name := isWithinLimit_of_length_types_le (by decide)
  have hlow : yard.isSubtype "truck" "object" = true := by decide
  have hhigh : yard.isSubtype "object" "thing" = true := by decide
  have hnot : yard.isSubtype "truck" "thing" = false := by decide
  exact Bool.false_ne_true (hnot.symm.trans (h yard hlimit _ _ _ hlow hhigh))

end PlanPlayback.Domain
