import PlanPlayback.Pddl.TypedList

/-!
# Typed lists are groups of names

A typed list is a row of groups, each of which ends with a dash and a type, and the names behind the
last group (`TypedNames`).  Each name gets the type of its own group, and those behind the last
group get none.  A dash at the end, with no type behind it, types nothing.

There are no other typed lists: whatever expressions a list holds, it is of this form, with or
without a dash at the end (`exists_typedNames_append`).  So the two cases tell what is read of every
list.
-/

namespace PlanPlayback

/-- The atom between names and their type. -/
def dash : Sexpr := .atom "-"

theorem isDash_iff {e : Sexpr} : isDash e = true ↔ e = dash := by
  cases e <;> simp [isDash, Sexpr.atom?, dash]

/-- Names that are declared together, and their type. -/
structure TypeGroup where
  names : List Sexpr
  type : Sexpr
  ne_dash : ∀ name ∈ names, name ≠ dash

/-- The names of a typed list: those in groups, and those behind the last group. -/
structure TypedNames where
  groups : List TypeGroup
  trailing : List Sexpr
  ne_dash : ∀ name ∈ trailing, name ≠ dash

namespace TypeGroup

/-- A group as it stands in a list. -/
def items (group : TypeGroup) : List Sexpr :=
  group.names ++ [dash, group.type]

/-- The names of a group with their type. -/
def entries (group : TypeGroup) : List (Sexpr × Option String) :=
  group.names.map fun name => (name, some group.type.render)

end TypeGroup

namespace TypedNames

/-- The names and types as they stand in a list. -/
def items (typed : TypedNames) : List Sexpr :=
  typed.groups.flatMap TypeGroup.items ++ typed.trailing

/-- Each name with the type of its group, if it stands in one. -/
def entries (typed : TypedNames) : List (Sexpr × Option String) :=
  typed.groups.flatMap TypeGroup.entries ++ typed.trailing.map fun name => (name, none)

/-- Names that stand in front of the first group belong to it. -/
theorem exists_cons {typed : TypedNames} {names : List Sexpr} (h : ∀ name ∈ names, name ≠ dash)
    (type : Sexpr) :
    ∃ longer : TypedNames, longer.items = names ++ dash :: type :: typed.items :=
  ⟨⟨⟨names, type, h⟩ :: typed.groups, typed.trailing, typed.ne_dash⟩, by
    simp [items, TypeGroup.items]⟩

end TypedNames

/-! ## Reading -/

theorem typedItemsFrom_cons_of_ne {name : Sexpr} (h : name ≠ dash) (pending rest : List Sexpr) :
    typedItemsFrom pending (name :: rest) = typedItemsFrom (pending ++ [name]) rest := by
  have hname : ¬isDash name = true := fun hdash => h (isDash_iff.mp hdash)
  cases rest <;> simp [typedItemsFrom, hname]

theorem typedItemsFrom_names_append {names : List Sexpr} (h : ∀ name ∈ names, name ≠ dash)
    (pending rest : List Sexpr) :
    typedItemsFrom pending (names ++ rest) = typedItemsFrom (pending ++ names) rest := by
  induction names generalizing pending with
  | nil => simp
  | cons name names ih =>
    obtain ⟨hname, hnames⟩ := List.forall_mem_cons.mp h
    rw [List.cons_append, typedItemsFrom_cons_of_ne hname, ih hnames, List.append_assoc,
      List.singleton_append]

theorem typedItemsFrom_group_append (group : TypeGroup) (rest : List Sexpr) :
    typedItemsFrom [] (group.items ++ rest) = group.entries ++ typedItemsFrom [] rest := by
  rw [TypeGroup.items, List.append_assoc, typedItemsFrom_names_append group.ne_dash]
  rfl

theorem typedItemsFrom_groups_append (groups : List TypeGroup) (rest : List Sexpr) :
    typedItemsFrom [] (groups.flatMap TypeGroup.items ++ rest) =
      groups.flatMap TypeGroup.entries ++ typedItemsFrom [] rest := by
  induction groups with
  | nil => rfl
  | cons group groups ih =>
    rw [List.flatMap_cons, List.append_assoc, typedItemsFrom_group_append, ih, List.flatMap_cons,
      List.append_assoc]

/-- Whether nothing or a single dash follows the names, they have no type. -/
theorem typedItems_items_append (typed : TypedNames) {rest : List Sexpr}
    (hrest : rest = [] ∨ rest = [dash]) : typedItems (typed.items ++ rest) = typed.entries := by
  rw [typedItems, TypedNames.items, List.append_assoc, typedItemsFrom_groups_append,
    typedItemsFrom_names_append typed.ne_dash]
  rcases hrest with rfl | rfl <;> rfl

/-- Every list is a typed list, where names may have been met already. -/
theorem exists_typedNames_append {pending : List Sexpr} (h : ∀ name ∈ pending, name ≠ dash)
    (items : List Sexpr) :
    ∃ typed : TypedNames,
      pending ++ items = typed.items ∨ pending ++ items = typed.items ++ [dash] := by
  fun_induction typedItemsFrom pending items with
  | case1 pending => exact ⟨⟨[], pending, h⟩, .inl (by simp [TypedNames.items])⟩
  | case2 pending item hitem =>
    rw [isDash_iff.mp hitem]
    exact ⟨⟨[], pending, h⟩, .inr (by simp [TypedNames.items])⟩
  | case3 pending item hitem type others ih =>
    obtain ⟨typed, htyped⟩ := ih (by simp)
    obtain ⟨longer, hlonger⟩ := typed.exists_cons h type
    rw [isDash_iff.mp hitem]
    refine ⟨longer, htyped.imp (fun hsame => ?_) fun hsame => ?_⟩
    · rw [hlonger, ← hsame, List.nil_append]
    · rw [hlonger, List.append_assoc, List.cons_append, List.cons_append, ← hsame, List.nil_append]
  | case4 pending item rest hitem ih =>
    have hname : item ≠ dash := fun hdash => hitem (isDash_iff.mpr hdash)
    obtain ⟨typed, htyped⟩ := ih (by simpa [or_imp, forall_and] using ⟨h, hname⟩)
    exact ⟨typed, by simpa using htyped⟩

/-- **Each name has the type of its group.**  What is read of groups of names with their types, and
of names behind them, is each name in its place with the rendered type of its own group, and each
name behind the groups without a type.  A dash at the end changes nothing.  These are all the lists
that there are. -/
theorem typed_names_read :
    (∀ typed : TypedNames,
      typedItems typed.items = typed.entries ∧ typedItems (typed.items ++ [dash]) = typed.entries) ∧
    ∀ items : List Sexpr,
      ∃ typed : TypedNames, items = typed.items ∨ items = typed.items ++ [dash] := by
  refine ⟨fun typed => ⟨?_, typedItems_items_append typed (.inr rfl)⟩, fun items => ?_⟩
  · have h := typedItems_items_append typed (.inl rfl)
    rwa [List.append_nil] at h
  · have hnone : ∀ name ∈ ([] : List Sexpr), name ≠ dash := by simp
    exact exists_typedNames_append hnone items

end PlanPlayback
