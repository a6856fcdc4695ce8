import PlanPlayback.Proofs.Pddl.Definition

/-!
# The operators that a domain declares

A section of a domain declares an operator if it begins with one of four keywords and has a name.
The operators of a domain are those that its sections declare, in their order: what one section
does to the domain (`operators_addSection`) gives what all of them do (`operators_ofSections`).

An operator keeps the list that declares it as its source, whatever else is in that list
(`IsDeclaredBy.source`).
-/

namespace PlanPlayback

open Sexpr

/-- The kind of operator that a keyword announces. -/
def OperatorKind.ofKeyword? : String → Option OperatorKind
  | ":action" => some .action
  | ":durative-action" => some .durativeAction
  | ":process" => some .process
  | ":event" => some .event
  | _ => none

/-! ## One operator -/

namespace OperatorDraft

/-- What the fields of an operator leave as it is. -/
structure Same (draft other : OperatorDraft) : Prop where
  kind : other.operator.kind = draft.operator.kind
  source : other.operator.source = draft.operator.source

theorem same_addField (draft : OperatorDraft) (key value : Sexpr) :
    draft.Same (draft.addField key value) := by
  unfold addField
  split <;> exact ⟨rfl, rfl⟩

theorem same_addFields (draft : OperatorDraft) (fields : List Sexpr) :
    draft.Same (draft.addFields fields) := by
  fun_induction addFields draft fields with
  | case1 draft => exact ⟨rfl, rfl⟩
  | case2 draft key => exact ⟨rfl, rfl⟩
  | case3 draft key value rest ih =>
    have hfield := same_addField draft key value
    exact ⟨ih.kind.trans hfield.kind, ih.source.trans hfield.source⟩

end OperatorDraft

namespace Operator

/-- The operator that a section of a domain declares, if it declares one. -/
def declared? (declaration : Sexpr) : Option Operator :=
  (declaration.head?.bind OperatorKind.ofKeyword?).bind fun kind => (ofSection kind declaration).1

/-- An operator starts with its name, its kind and its source, and takes its fields one by one. -/
theorem eq_addFields_of_ofSection {kind : OperatorKind} {declaration : Sexpr} {op : Operator}
    (h : (ofSection kind declaration).1 = some op) :
    ∃ name, op = (OperatorDraft.addFields
      { operator := { name, kind, source := declaration.render } }
      (declaration.tail.drop 1)).operator := by
  unfold ofSection at h
  split at h
  · cases h
  next name _ => exact ⟨name, (Option.some.inj h).symm⟩

theorem of_ofSection {kind : OperatorKind} {declaration : Sexpr} {op : Operator}
    (h : (ofSection kind declaration).1 = some op) :
    op.kind = kind ∧ op.source = declaration.render := by
  obtain ⟨name, rfl⟩ := eq_addFields_of_ofSection h
  exact ⟨(OperatorDraft.same_addFields _ _).kind, (OperatorDraft.same_addFields _ _).source⟩

theorem kind_of_declared? {declaration : Sexpr} {op : Operator} (h : declared? declaration = some op) :
    declaration.head?.bind OperatorKind.ofKeyword? = some op.kind := by
  obtain ⟨kind, hkind, hop⟩ := Option.bind_eq_some_iff.mp h
  rw [hkind, (of_ofSection hop).1]

theorem source_of_declared? {declaration : Sexpr} {op : Operator}
    (h : declared? declaration = some op) : op.source = declaration.render := by
  obtain ⟨kind, -, hop⟩ := Option.bind_eq_some_iff.mp h
  exact (of_ofSection hop).2

end Operator

/-! ## All operators -/

namespace Domain

/-- The lists of a domain that hold operators, each with the kinds of its operators. -/
def operatorLists : List ((Domain → List Operator) × List OperatorKind) :=
  [(actions, [.action, .durativeAction]), (processes, [.process]), (events, [.event])]

theorem filter_toList_ofSection (kind : OperatorKind) (item : Sexpr) (kinds : List OperatorKind) :
    ((Operator.ofSection kind item).1.toList.filter fun op => op.kind ∈ kinds) =
      if kind ∈ kinds then (Operator.ofSection kind item).1.toList else [] := by
  cases h : (Operator.ofSection kind item).1 with
  | none => simp
  | some op => simp [(Operator.of_ofSection h).1, List.filter_cons]

/-- A section adds the operator that it declares to the list of its kind. -/
theorem operators_addSection (d : Domain) (item : Sexpr) :
    ∀ entry ∈ operatorLists, entry.1 (d.addSection item).1 =
      entry.1 d ++ (Operator.declared? item).toList.filter fun op => op.kind ∈ entry.2 := by
  unfold addSection Operator.declared?
  -- one case for each keyword; four of them announce an operator
  split
  case h_2 hdomain =>
    cases hname : leadingAtom? item.tail <;>
      simp [hname, hdomain, operatorLists, OperatorKind.ofKeyword?]
  all_goals simp_all [operatorLists, OperatorKind.ofKeyword?, filter_toList_ofSection]

/-- Section by section, the operators that are declared come behind those that are there. -/
theorem operators_foldl {step : Parsed Domain → Sexpr → Parsed Domain}
    (hstep : ∀ parsed item, (step parsed item).value = (parsed.value.addSection item).1)
    (sections : List Sexpr) (parsed : Parsed Domain) :
    ∀ entry ∈ operatorLists, entry.1 (sections.foldl step parsed).value =
      entry.1 parsed.value ++
        (sections.filterMap Operator.declared?).filter fun op => op.kind ∈ entry.2 := by
  intro entry hentry
  induction sections generalizing parsed with
  | nil => simp
  | cons item rest ih =>
    have hfirst : (item :: rest).filterMap Operator.declared? =
        (Operator.declared? item).toList ++ rest.filterMap Operator.declared? := by
      cases hop : Operator.declared? item <;> simp [hop]
    rw [List.foldl_cons, ih, hstep, operators_addSection _ _ entry hentry, hfirst,
      List.filter_append, List.append_assoc]

/-- The operators of a domain are those that its sections declare, in their order. -/
theorem operators_ofSections (sections : List Sexpr) :
    ∀ entry ∈ operatorLists, entry.1 (ofSections sections).value =
      (sections.filterMap Operator.declared?).filter fun op => op.kind ∈ entry.2 := by
  intro entry hentry
  have hempty : entry.1 {} = [] := by
    simp only [operatorLists, List.mem_cons, List.not_mem_nil, or_false] at hentry
    rcases hentry with rfl | rfl | rfl <;> rfl
  rw [ofSections, operators_foldl (fun _ _ => rfl) sections _ entry hentry, hempty,
    List.nil_append]

theorem mem_operators_iff {d : Domain} {op : Operator} :
    op ∈ d.operators ↔ ∃ entry ∈ operatorLists, op ∈ entry.1 d := by
  simp [operators, operatorLists]

end Domain

/-! ## Where an operator is declared -/

namespace Operator

/-- Whether the definition in a text has a section that declares an operator. -/
structure IsDeclaredBy (op : Operator) (text : String) (declaration : Sexpr) : Prop where
  section_of : ∃ form, definition? text = some form ∧ declaration ∈ form.tail
  declares : declared? declaration = some op

namespace IsDeclaredBy

variable {op : Operator} {text : String} {declaration : Sexpr}

theorem isPrepared (h : op.IsDeclaredBy text declaration) :
    ∀ word ∈ declaration.leaves, IsPrepared word := by
  obtain ⟨form, hform, hmem⟩ := h.section_of
  intro word hword
  refine isPrepared_of_definition? hform word ?_
  cases form with
  | atom name => cases hmem
  | list items => exact leaves_subset_leavesAll (List.mem_of_mem_drop hmem) hword

theorem source (h : op.IsDeclaredBy text declaration) : op.source = declaration.render :=
  source_of_declared? h.declares

theorem readForms_source (h : op.IsDeclaredBy text declaration) :
    readForms op.source = [declaration] := by
  rw [h.source]
  exact readForms_render fun word hword => (h.isPrepared word hword).isWord

end IsDeclaredBy

end Operator

namespace Domain

variable {text : String} {parsed : Parsed Domain}

/-- Every operator in one of the lists of a domain is of a kind of that list, and declared. -/
theorem exists_declaration (h : parse? text = some parsed)
    {entry : (Domain → List Operator) × List OperatorKind} (hentry : entry ∈ operatorLists)
    {op : Operator} (hop : op ∈ entry.1 parsed.value) :
    op.kind ∈ entry.2 ∧ ∃ declaration, op.IsDeclaredBy text declaration := by
  obtain ⟨form, hform, rfl⟩ := Option.map_eq_some_iff.mp h
  rw [operators_ofSections _ entry hentry, List.mem_filter, decide_eq_true_eq] at hop
  obtain ⟨declaration, hmem, hdeclares⟩ := List.mem_filterMap.mp hop.1
  exact ⟨hop.2, declaration, ⟨form, hform, hmem⟩, hdeclares⟩

theorem exists_declaration_of_mem_operators (h : parse? text = some parsed) {op : Operator}
    (hop : op ∈ parsed.value.operators) : ∃ declaration, op.IsDeclaredBy text declaration := by
  obtain ⟨entry, hentry, hmem⟩ := mem_operators_iff.mp hop
  exact (exists_declaration h hentry hmem).2

end Domain

end PlanPlayback
