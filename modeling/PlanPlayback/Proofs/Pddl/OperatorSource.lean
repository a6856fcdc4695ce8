import PlanPlayback.Proofs.Pddl.Declarations

/-!
# The source of an operator is the operator

An operator keeps the list that declared it as text.  The dialect of a domain is told from these
texts, so it matters that they say nothing else than the operators do: read as the only operator of
a domain, the source of an operator gives the operator again, field by field.

The domain around the source is written by hand, so its text is shown to be the rendering of a form
first (`render_formAround`).  The rest follows from what is known about the atoms of a definition.
-/

namespace PlanPlayback

open Sexpr

namespace Domain

/-- The definition of a domain that has a single section. -/
def formAround (declaration : Sexpr) : Sexpr :=
  .list [.atom "define", .list [.atom "domain", .atom "d"], declaration]

theorem render_formAround (declaration : Sexpr) :
    (formAround declaration).render = "(define (domain d) " ++ declaration.render ++ ")" := by
  have hfront (behind : String) :
      "(define (domain d) " ++ behind = "(" ++ ("define " ++ ("(domain d) " ++ behind)) := by
    rw [← String.toList_inj]
    simp only [String.toList_append]
    rfl
  rw [String.append_assoc, hfront]
  simp [formAround, render, renderItems, String.append_assoc]

/-- A section whose atoms are prepared is read from its rendering, in a domain of its own. -/
theorem parse?_around {declaration : Sexpr} (h : ∀ word ∈ declaration.leaves, IsPrepared word) :
    parse? ("(define (domain d) " ++ declaration.render ++ ")") =
      some (ofSections [.list [.atom "domain", .atom "d"], declaration]) := by
  have hprepared : ∀ word ∈ (formAround declaration).leaves, IsPrepared word := by
    have hown : ∀ word ∈ ["define", "domain", "d"], IsPrepared word := by decide +kernel
    have hleaves : (formAround declaration).leaves =
        ["define", "domain", "d"] ++ declaration.leaves := by
      simp [formAround, leaves, leavesAll]
    intro word hword
    rw [hleaves, List.mem_append] at hword
    exact hword.elim (hown word) (h word)
  rw [← render_formAround, parse?, definition?_render rfl hprepared]
  rfl

/-- A domain whose sections declare a single operator holds it in the list of its kind alone. -/
theorem operators_of_declared_singleton {sections : List Sexpr} {op : Operator}
    (h : sections.filterMap Operator.declared? = [op]) :
    (∀ entry ∈ operatorLists, op.kind ∈ entry.2 → entry.1 (ofSections sections).value = [op]) ∧
      (ofSections sections).value.operators = [op] := by
  have hlists := operators_ofSections sections
  rw [h] at hlists
  constructor
  · intro entry hentry hkind
    simp [hlists entry hentry, hkind]
  · simp only [operatorLists, List.forall_mem_cons] at hlists
    obtain ⟨hactions, hprocesses, hevents, -⟩ := hlists
    rw [operators, hactions, hprocesses, hevents]
    cases hkind : op.kind <;> simp [hkind]

/-- **An operator is read from its source.**  The source of an operator of any domain is the text of a
single list.  Read as the only section of a domain, it gives a domain with this operator, in the list
where it was before, and with no other. -/
theorem operators_read_from_source {text : String} {parsed : Parsed Domain}
    (h : parse? text = some parsed) :
    ∀ operatorsOf ∈ [Domain.actions, Domain.processes, Domain.events],
      ∀ op ∈ operatorsOf parsed.value,
        (∃ form, readForms op.source = [form]) ∧
          ∃ again, parse? ("(define (domain d) " ++ op.source ++ ")") = some again ∧
            operatorsOf again.value = [op] ∧ again.value.operators = [op] := by
  intro operatorsOf hlist op hop
  have hlist : operatorsOf ∈ operatorLists.map Prod.fst := hlist
  obtain ⟨⟨_, kinds⟩, hentry, rfl⟩ := List.mem_map.mp hlist
  obtain ⟨hkind, declaration, hdeclared⟩ := exists_declaration h hentry hop
  have honly : [.list [.atom "domain", .atom "d"], declaration].filterMap Operator.declared? =
      [op] := by
    have hname : Operator.declared? (.list [.atom "domain", .atom "d"]) = none := rfl
    simp [hname, hdeclared.declares]
  obtain ⟨hsame, hoperators⟩ := operators_of_declared_singleton honly
  refine ⟨⟨declaration, hdeclared.readForms_source⟩, _, ?_, hsame _ hentry hkind, hoperators⟩
  rw [hdeclared.source]
  exact parse?_around hdeclared.isPrepared

/-- An action is read from its source, where its comment, its capitals and its line end are gone. -/
theorem sail_read_from_source :
    ∃ parsed, parse? "(define (domain ferry) (:action Sail ; across
        :parameters (?b) :effect (increase (trips ?b) 1)))" = some parsed ∧
      ∃ op ∈ parsed.value.actions,
        op.source = "(:action sail :parameters (?b) :effect (increase (trips ?b) 1))" ∧
          ∃ again, parse? ("(define (domain d) " ++ op.source ++ ")") = some again ∧
            again.value.actions = [op] ∧ again.value.operators = [op] := by
  have hread : (parse? "(define (domain ferry) (:action Sail ; across
        :parameters (?b) :effect (increase (trips ?b) 1)))").any (fun parsed =>
      parsed.value.actions.any fun op =>
        op.source == "(:action sail :parameters (?b) :effect (increase (trips ?b) 1))") = true := by
    decide +kernel
  obtain ⟨parsed, hparsed, hactions⟩ := (Option.any_eq_true _ _).mp hread
  obtain ⟨op, hop, hsource⟩ := List.any_eq_true.mp hactions
  obtain ⟨-, again⟩ := operators_read_from_source hparsed actions List.mem_cons_self op hop
  exact ⟨parsed, hparsed, op, hop, beq_iff_eq.mp hsource, again⟩

end Domain

end PlanPlayback
