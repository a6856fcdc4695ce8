import PlanPlayback.Proofs.Pddl.DurativeCues
import PlanPlayback.Proofs.Pddl.SectionBySection
import PlanPlayback.Proofs.Pddl.WalkLeaves

/-!
# What is reported of a definition

A reader reports what it leaves out.  This file says what that is for every section of a domain
and of a problem, without reference to the order in which the section is read.

* `ConditionReports` and `EffectReports` are about the leaves of conditions and effects;
* `Operator.Reports` is about the declaration of an operator, `InitReports` about an entry of an
  initial state and `MetricReports` about a metric;
* `Domain.Reports` and `Problem.Reports` are about whole sections.

These are all the reports that there are (`Domain.mem_issues_iff`, `Problem.mem_issues_iff`).
-/

namespace PlanPlayback

open Sexpr

/-! ## Leaves of conditions and effects -/

/-- Whether a form is a negation without a literal in it. -/
def IsBareNegation (node : Sexpr) : Prop :=
  node.head? = some "not" ∧ ∀ inner, node.tail.head? = some inner → inner.head? = none

/-- Whether a form names a fluent: a bare name, or a list that begins with one. -/
def NamesFluent (e : Sexpr) : Prop :=
  e.atom?.isSome = true ∨ e.head?.isSome = true

/-- What is reported of a leaf of a condition. -/
inductive ConditionReports (node : Sexpr) : WalkIssue → Prop
  | headless (h : node.head? = none) : ConditionReports node (.malformedCondition node)
  | negation (h : IsBareNegation node) : ConditionReports node (.malformedNegation node)

/-- What is reported of a leaf of an effect. -/
inductive EffectReports (node : Sexpr) : WalkIssue → Prop
  | headless (h : node.head? = none) : EffectReports node (.malformedEffect node)
  | negation (h : IsBareNegation node) : EffectReports node (.malformedNegation node)
  | update {word : String} (h : node.head? = some word)
      (hword : (Update.ofKeyword? word).isSome = true)
      (hoperands : ∀ target amount, node.tail = [target, amount] → ¬NamesFluent target) :
      EffectReports node (.malformedNumericEffect node)

theorem isSome_fluentTarget?_iff {e : Sexpr} :
    (fluentTarget? e).isSome = true ↔ NamesFluent e := by
  cases e <;> simp [fluentTarget?, NamesFluent, atom?]

theorem head?_bind_ofSexpr?_eq_none_iff {timing : Timing} {rest : List Sexpr} :
    rest.head?.bind (Literal.ofSexpr? timing) = none ↔
      ∀ inner, rest.head? = some inner → inner.head? = none := by
  simp [Option.bind_eq_none_iff, Literal.ofSexpr?]

theorem issue?_negationFinding {timing : Timing} {node : Sexpr} {issue : WalkIssue}
    (h : node.head? = some "not") :
    (negationFinding timing node).issue? = some issue ↔
      IsBareNegation node ∧ issue = .malformedNegation node := by
  have hbare : IsBareNegation node ↔
      node.tail.head?.bind (Literal.ofSexpr? timing) = none := by
    rw [IsBareNegation, head?_bind_ofSexpr?_eq_none_iff, and_iff_right h]
  unfold negationFinding
  rw [hbare]
  split
  next inner hinner => simp [hinner, Finding.issue?]
  next hnone => simp [hnone, Finding.issue?, eq_comm]

theorem issue?_conditionFinding {timing : Timing} {node : Sexpr} {issue : WalkIssue} :
    (conditionFinding timing node).issue? = some issue ↔ ConditionReports node issue := by
  constructor
  · intro h
    unfold conditionFinding at h
    split at h
    next hhead => exact Option.some.inj h ▸ .headless hhead
    next word hhead =>
      split_ifs at h with hnot
      · subst hnot
        obtain ⟨hbare, rfl⟩ := (issue?_negationFinding hhead).mp h
        exact .negation hbare
      · split at h <;> cases h
  · rintro (hhead | hbare)
    · simp [conditionFinding, hhead, Finding.issue?]
    · simpa [conditionFinding, hbare.1] using (issue?_negationFinding hbare.1).mpr ⟨hbare, rfl⟩

theorem numericEffect_of?_eq_none_iff {timing : Timing} {update : Update} {operands : List Sexpr} :
    NumericEffect.of? timing update operands = none ↔
      ∀ target amount, operands = [target, amount] → ¬NamesFluent target := by
  unfold NumericEffect.of?
  split
  next target amount => simp [← isSome_fluentTarget?_iff]
  next hother => simpa using fun target amount heq => (hother target amount heq).elim

theorem issue?_effectFinding {timing : Timing} {node : Sexpr} {issue : WalkIssue} :
    (effectFinding timing node).issue? = some issue ↔ EffectReports node issue := by
  constructor
  · intro h
    unfold effectFinding at h
    split at h
    next hhead => exact Option.some.inj h ▸ .headless hhead
    next word hhead =>
      split_ifs at h with hnot
      · subst hnot
        obtain ⟨hbare, rfl⟩ := (issue?_negationFinding hhead).mp h
        exact .negation hbare
      split at h
      next => cases h
      next update hupdate =>
        split at h
        next => cases h
        next hnone =>
          exact Option.some.inj h ▸
            .update hhead (by simp [hupdate]) (numericEffect_of?_eq_none_iff.mp hnone)
  · rintro (hhead | hbare | @⟨word, hhead, hword, hoperands⟩)
    · simp [effectFinding, hhead, Finding.issue?]
    · simpa [effectFinding, hbare.1] using (issue?_negationFinding hbare.1).mpr ⟨hbare, rfl⟩
    · obtain ⟨update, hupdate⟩ := Option.isSome_iff_exists.mp hword
      have hnot : word ≠ "not" := by
        rintro rfl
        exact absurd hword (by decide)
      have hnone : NumericEffect.of? timing update node.tail = none :=
        numericEffect_of?_eq_none_iff.mpr hoperands
      simp [effectFinding, hhead, hnot, hupdate, hnone, Finding.issue?]

/-- What a walk reports is what is reported of its leaves. -/
theorem Descent.IsStepOf.mem_issues_iff {descent : Descent} {found : Timing → Sexpr → Finding}
    {walk : Timing → Sexpr → Leaves} {reports : Sexpr → WalkIssue → Prop}
    (h : descent.IsStepOf found walk)
    (hfound : ∀ timing node issue,
      (found timing node).issue? = some issue ↔ reports node issue)
    {timing : Timing} {e : Sexpr} {issue : WalkIssue} :
    issue ∈ (walk timing e).issues ↔ ∃ site ∈ descent.sites [] e, reports site.node issue := by
  have hwalk : walk timing e = .ofFindings (descent.findings found timing [] e) :=
    h.eq_ofFindings timing [] e
  simp [hwalk, Leaves.ofFindings, Descent.findings, hfound]

theorem mem_issues_conditions_iff {timing : Timing} {e : Sexpr} {issue : WalkIssue} :
    issue ∈ (conditions timing e).issues ↔
      ∃ site ∈ conditionDescent.sites [] e, ConditionReports site.node issue :=
  conditions_isStepOf.mem_issues_iff fun _ _ _ => issue?_conditionFinding

theorem mem_issues_effects_iff {timing : Timing} {e : Sexpr} {issue : WalkIssue} :
    issue ∈ (effects timing e).issues ↔
      ∃ site ∈ effectDescent.sites [] e, EffectReports site.node issue :=
  effects_isStepOf.mem_issues_iff fun _ _ _ => issue?_effectFinding

/-! ## Operators -/

/-- The last key in the fields of an operator, if no value follows it. -/
def keyWithoutValue? : List Sexpr → Option Sexpr
  | [] => none
  | [key] => some key
  | _ :: _ :: rest => keyWithoutValue? rest

/-- The keys of an operator. -/
def operatorKeys : List String :=
  [":parameters", ":precondition", ":condition", ":effect", ":duration"]

/-- What is reported of the value of a key. -/
inductive FieldReports (key value : Sexpr) : WalkIssue → Prop
  | condition {site : Site} {issue : WalkIssue}
      (hkey : key = .atom ":precondition" ∨ key = .atom ":condition")
      (hsite : site ∈ conditionDescent.sites [] value)
      (h : ConditionReports site.node issue) : FieldReports key value issue
  | effect {site : Site} {issue : WalkIssue} (hkey : key = .atom ":effect")
      (hsite : site ∈ effectDescent.sites [] value)
      (h : EffectReports site.node issue) : FieldReports key value issue

/-- The name of the operator that a list declares, and a key in the list with its value. -/
structure Operator.HasField (declaration : Sexpr) (name : String) (key value : Sexpr) : Prop where
  name_eq : leadingAtom? declaration.tail = some name
  mem : (key, value) ∈ keysAndValues (declaration.tail.drop 1)

/-- What is reported of the declaration of an operator. -/
inductive Operator.Reports (declaration : Sexpr) : FormIssue → Prop
  | nameless (h : leadingAtom? declaration.tail = none) :
      Reports declaration (.namelessOperator declaration)
  | missingValue {name : String} {key : Sexpr}
      (hname : leadingAtom? declaration.tail = some name)
      (hkey : keyWithoutValue? (declaration.tail.drop 1) = some key) :
      Reports declaration (.missingValue name key)
  | unknownKey {name : String} {key value : Sexpr} (h : HasField declaration name key value)
      (hkey : ∀ word ∈ operatorKeys, key ≠ .atom word) :
      Reports declaration (.unknownKey name key)
  | inField {name : String} {key value : Sexpr} {issue : WalkIssue}
      (h : HasField declaration name key value) (hissue : FieldReports key value issue) :
      Reports declaration (.inOperator name issue)

namespace OperatorDraft

variable (draft : OperatorDraft)

theorem name_addField (key value : Sexpr) :
    (draft.addField key value).operator.name = draft.operator.name := by
  unfold addField
  split <;> rfl

theorem mem_issues_addField {key value : Sexpr} {issue : FormIssue} :
    issue ∈ (draft.addField key value).issues ↔
      issue ∈ draft.issues ∨
        (∀ word ∈ operatorKeys, key ≠ .atom word) ∧ issue = .unknownKey draft.operator.name key := by
  unfold addField
  -- one case for each key; only any other key is reported
  split <;> cases key <;> simp_all [atom?, operatorKeys]

theorem mem_inner_addField {key value : Sexpr} {issue : WalkIssue} :
    issue ∈ (draft.addField key value).inner ↔
      issue ∈ draft.inner ∨ FieldReports key value issue := by
  have hcondition (hkey : key = .atom ":precondition" ∨ key = .atom ":condition") :
      issue ∈ (conditions .instant value).issues ↔ FieldReports key value issue := by
    rw [mem_issues_conditions_iff]
    constructor
    · rintro ⟨site, hsite, h⟩
      exact .condition hkey hsite h
    · rintro (⟨-, hsite, h⟩ | ⟨heffect, -, -⟩)
      · exact ⟨_, hsite, h⟩
      · simp [heffect] at hkey
  have heffect (hkey : key = .atom ":effect") :
      issue ∈ (effects .instant value).issues ↔ FieldReports key value issue := by
    rw [mem_issues_effects_iff]
    constructor
    · rintro ⟨site, hsite, h⟩
      exact .effect hkey hsite h
    · rintro (⟨hcondition, -, -⟩ | ⟨-, hsite, h⟩)
      · simp [hkey] at hcondition
      · exact ⟨_, hsite, h⟩
  have hother (hconditions : key ≠ .atom ":precondition" ∧ key ≠ .atom ":condition")
      (heffects : key ≠ .atom ":effect") : ¬FieldReports key value issue := by
    rintro (⟨hkey, -, -⟩ | ⟨hkey, -, -⟩)
    · exact hkey.elim hconditions.1 hconditions.2
    · exact heffects hkey
  unfold addField
  cases key with
  | list items => exact (or_iff_left (hother (by simp) (by simp))).symm
  | atom word =>
    simp only [atom?]
    split <;> simp_all

theorem mem_issues_addFields {fields : List Sexpr} {issue : FormIssue} :
    issue ∈ (draft.addFields fields).issues ↔
      issue ∈ draft.issues ∨
        (∃ field ∈ keysAndValues fields, (∀ word ∈ operatorKeys, field.1 ≠ .atom word) ∧
          issue = .unknownKey draft.operator.name field.1) ∨
        ∃ key, keyWithoutValue? fields = some key ∧
          issue = .missingValue draft.operator.name key := by
  fun_induction addFields draft fields with
  | case1 draft => simp [keysAndValues, keyWithoutValue?]
  | case2 draft key => simp [keysAndValues, keyWithoutValue?]
  | case3 draft key value rest ih =>
    rw [ih, mem_issues_addField, name_addField, keysAndValues, keyWithoutValue?,
      List.exists_mem_cons_iff]
    simp only [or_assoc]

theorem mem_inner_addFields {fields : List Sexpr} {issue : WalkIssue} :
    issue ∈ (draft.addFields fields).inner ↔
      issue ∈ draft.inner ∨
        ∃ field ∈ keysAndValues fields, FieldReports field.1 field.2 issue := by
  fun_induction addFields draft fields with
  | case1 draft => simp [keysAndValues]
  | case2 draft key => simp [keysAndValues]
  | case3 draft key value rest ih =>
    rw [ih, mem_inner_addField, keysAndValues, List.exists_mem_cons_iff, or_assoc]

end OperatorDraft

theorem Operator.mem_ofSection_iff {kind : OperatorKind} {declaration : Sexpr}
    {issue : FormIssue} :
    issue ∈ (ofSection kind declaration).2 ↔ Reports declaration issue := by
  unfold ofSection
  split
  next hname =>
    rw [List.mem_singleton]
    constructor
    · rintro rfl
      exact .nameless hname
    · rintro (_ | ⟨h, -⟩ | ⟨⟨h, -⟩, -⟩ | ⟨⟨h, -⟩, -⟩)
      · rfl
      all_goals simp [hname] at h
  next name hname =>
    simp only [List.mem_append, List.mem_map, OperatorDraft.mem_issues_addFields,
      OperatorDraft.mem_inner_addFields, List.not_mem_nil, false_or]
    constructor
    · rintro ((⟨field, hmem, hkey, rfl⟩ | ⟨key, hkey, rfl⟩) | ⟨issue, ⟨field, hmem, h⟩, rfl⟩)
      · exact .unknownKey ⟨hname, hmem⟩ hkey
      · exact .missingValue hname hkey
      · exact .inField ⟨hname, hmem⟩ h
    · rintro (h | ⟨h, hkey⟩ | ⟨⟨h, hmem⟩, hkey⟩ | ⟨⟨h, hmem⟩, hissue⟩)
      · simp [hname] at h
      all_goals obtain rfl := Option.some.inj (hname.symm.trans h)
      · exact .inl (.inr ⟨_, hkey, rfl⟩)
      · exact .inl (.inl ⟨_, hmem, hkey, rfl⟩)
      · exact .inr ⟨_, ⟨_, hmem, hissue⟩, rfl⟩

/-! ## Domains -/

/-- What is declared in a typed list, without the types. -/
def typedForms (items : List Sexpr) : List Sexpr :=
  (typedItems items).map Prod.fst

namespace Domain

/-- The keywords of the sections of a domain. -/
def keywords : List String :=
  ["domain", ":requirements", ":types", ":constants", ":predicates", ":functions", ":action",
    ":durative-action", ":process", ":event"]

/-- What is reported of a section of a domain. -/
inductive Reports (item : Sexpr) : FormIssue → Prop
  | headless (h : item.head? = none) : Reports item (.unexpectedItem item)
  | nameless (h : item.head? = some "domain") (hname : leadingAtom? item.tail = none) :
      Reports item .missingDomainName
  | predicate {declaration : Sexpr} (h : item.head? = some ":predicates")
      (hmem : declaration ∈ item.tail) (hhead : declaration.head? = none) :
      Reports item (.malformedPredicate declaration)
  | function {declaration : Sexpr} (h : item.head? = some ":functions")
      (hmem : declaration ∈ typedForms item.tail) (hhead : declaration.head? = none) :
      Reports item (.malformedFunction declaration)
  | operator {keyword : String} {issue : FormIssue} (h : item.head? = some keyword)
      (hkind : (OperatorKind.ofKeyword? keyword).isSome = true)
      (hissue : Operator.Reports item issue) : Reports item issue
  | unknown {keyword : String} (h : item.head? = some keyword) (hkeyword : keyword ∉ keywords) :
      Reports item (.unknownDomainSection keyword)

variable {item : Sexpr} {issue : FormIssue}

theorem sectionIssues_of_operator {keyword : String} {kind : OperatorKind}
    (h : item.head? = some keyword) (hkind : OperatorKind.ofKeyword? keyword = some kind) :
    sectionIssues item = (Operator.ofSection kind item).2 := by
  unfold OperatorKind.ofKeyword? at hkind
  split at hkind <;> cases hkind <;> simp [sectionIssues, addSection, h]

theorem mem_sectionIssues_of_reports (h : Reports item issue) : issue ∈ sectionIssues item := by
  cases h with
  | headless h => simp [sectionIssues, addSection, h]
  | nameless h hname => simp [sectionIssues, addSection, h, hname]
  | predicate h hmem hhead =>
    simpa [sectionIssues, addSection, h, PredicateDecl.ofSection, hhead] using hmem
  | function h hmem hhead =>
    simpa [sectionIssues, addSection, h, FunctionDecl.ofSection, typedForms, hhead] using hmem
  | operator h hkind hissue =>
    obtain ⟨kind, hkind⟩ := Option.isSome_iff_exists.mp hkind
    rw [sectionIssues_of_operator h hkind]
    exact Operator.mem_ofSection_iff.mpr hissue
  | unknown h hkeyword =>
    simp only [keywords, List.mem_cons, List.not_mem_nil, or_false, not_or] at hkeyword
    unfold sectionIssues addSection
    simp only [h]
    split <;> simp_all

theorem reports_of_mem_sectionIssues (h : issue ∈ sectionIssues item) : Reports item issue := by
  unfold sectionIssues addSection at h
  split at h
  case h_1 hhead => exact List.mem_singleton.mp h ▸ .headless hhead
  case h_2 hhead =>
    cases hname : leadingAtom? item.tail with
    | some name => simp [hname] at h
    | none =>
      obtain rfl : issue = .missingDomainName := by simpa [hname] using h
      exact .nameless hhead hname
  case h_6 hhead =>
    simp only [PredicateDecl.ofSection, List.mem_map, List.mem_filter,
      Option.isNone_iff_eq_none] at h
    obtain ⟨declaration, ⟨hmem, hnone⟩, rfl⟩ := h
    exact .predicate hhead hmem hnone
  case h_7 hhead =>
    simp only [FunctionDecl.ofSection, List.mem_map, List.mem_filter,
      Option.isNone_iff_eq_none] at h
    obtain ⟨entry, ⟨hmem, hnone⟩, rfl⟩ := h
    exact .function hhead (List.mem_map_of_mem hmem) hnone
  case h_8 hhead | h_9 hhead | h_10 hhead | h_11 hhead =>
    exact .operator hhead rfl (Operator.mem_ofSection_iff.mp h)
  case h_12 keyword _ _ _ _ _ _ _ _ _ _ hhead =>
    obtain rfl : issue = .unknownDomainSection keyword := by simpa using h
    exact .unknown hhead (by simp_all [keywords])
  -- the other sections are never reported
  all_goals simp at h

theorem mem_sectionIssues_iff : issue ∈ sectionIssues item ↔ Reports item issue :=
  ⟨reports_of_mem_sectionIssues, mem_sectionIssues_of_reports⟩

/-- What is reported of a domain is what is reported of its sections. -/
theorem mem_issues_iff {text : String} {parsed : Parsed Domain} (h : parse? text = some parsed) :
    issue ∈ parsed.issues ↔ ∃ item ∈ sectionsOf text, Reports item issue := by
  rw [eq_ofSections_of_parse? h, issues_ofSections, List.mem_flatMap]
  simp only [mem_sectionIssues_iff]

end Domain

/-! ## Problems -/

/-- What is reported of an entry of an initial state. -/
inductive InitReports (entry : Sexpr) : FormIssue → Prop
  | headless (h : entry.head? = none) : InitReports entry (.malformedInit entry)
  | number (h : entry.head? = some "=")
      (hoperands : ∀ target value, entry.tail = [target, .atom value] →
        (Decimal.floatOf? value).isSome = true → ¬NamesFluent target) :
      InitReports entry (.malformedNumericInit entry)
  | negation (h : IsBareNegation entry) : InitReports entry (.malformedNegatedInit entry)
  | timed (h : entry.head? = some "at") (htimed : isTimedLiteral entry.tail = true) :
      InitReports entry (.timedLiteral entry)

/-- What is reported of a metric. -/
inductive MetricReports (declaration : Sexpr) : FormIssue → Prop
  | malformed (h : declaration.tail.length ≠ 2) :
      MetricReports declaration (.malformedMetric declaration)
  | direction {direction expression : Sexpr} (h : declaration.tail = [direction, expression])
      (hminimize : direction ≠ .atom "minimize") (hmaximize : direction ≠ .atom "maximize") :
      MetricReports declaration (.unknownDirection direction)

theorem InitialNumber.of?_eq_none_iff {operands : List Sexpr} :
    of? operands = none ↔ ∀ target value, operands = [target, .atom value] →
      (Decimal.floatOf? value).isSome = true → ¬NamesFluent target := by
  unfold of?
  split
  next target value =>
    cases value with
    | list items => simp [atom?]
    | atom text =>
      cases hvalue : Decimal.floatOf? text with
      | none => simp [atom?, hvalue]
      | some number => simp [atom?, hvalue, ← isSome_fluentTarget?_iff]
  next hother => simpa using fun target value heq => (hother target (.atom value) heq).elim

theorem InitEntry.issue?_ofSexpr {entry : Sexpr} {issue : FormIssue} :
    (InitEntry.ofSexpr entry).issue? = some issue ↔ InitReports entry issue := by
  constructor
  · intro h
    unfold InitEntry.ofSexpr at h
    split at h
    next hhead => exact Option.some.inj h ▸ .headless hhead
    next head hhead =>
      simp only [beq_iff_eq, Bool.and_eq_true] at h
      split_ifs at h with hnumber hnot htimed
      · subst hnumber
        split at h
        · cases h
        next hnone => exact Option.some.inj h ▸ .number hhead (InitialNumber.of?_eq_none_iff.mp hnone)
      · subst hnot
        split at h
        · cases h
        next hnone =>
          exact Option.some.inj h ▸
            .negation ⟨hhead, head?_bind_ofSexpr?_eq_none_iff.mp hnone⟩
      · obtain ⟨rfl, htimed⟩ := htimed
        exact Option.some.inj h ▸ .timed hhead htimed
      · cases h
  · rintro (hhead | ⟨hhead, hoperands⟩ | ⟨hhead, hbare⟩ | ⟨hhead, htimed⟩)
    · simp [ofSexpr, hhead, issue?]
    · simp [ofSexpr, hhead, InitialNumber.of?_eq_none_iff.mpr hoperands, issue?]
    · have hnone : entry.tail.head?.bind (Literal.ofSexpr? .instant) = none :=
        head?_bind_ofSexpr?_eq_none_iff.mpr hbare
      simp [ofSexpr, hhead, hnone, issue?]
    · simp [ofSexpr, hhead, htimed, issue?]

theorem Metric.mem_ofSection_iff {declaration : Sexpr} {issue : FormIssue} :
    issue ∈ (Metric.ofSection declaration).2 ↔ MetricReports declaration issue := by
  unfold Metric.ofSection
  constructor
  · intro h
    split at h
    next direction expression htail =>
      cases direction with
      | list items =>
        exact List.mem_singleton.mp h ▸ .direction htail (by simp) (by simp)
      | atom word =>
        simp only [atom?] at h
        split at h
        · simp at h
        · simp at h
        next hminimize hmaximize =>
          exact List.mem_singleton.mp h ▸ .direction htail (by simp_all) (by simp_all)
    next hother =>
      refine List.mem_singleton.mp h ▸ .malformed fun hlength => ?_
      obtain ⟨direction, expression, htail⟩ := List.length_eq_two.mp hlength
      exact hother direction expression htail
  · rintro (hlength | @⟨direction, expression, htail, hminimize, hmaximize⟩)
    · split
      next htail => simp [htail] at hlength
      next => exact List.mem_singleton_self _
    · rw [htail]
      cases direction with
      | list items => simp [atom?]
      | atom word =>
        simp only [ne_eq, atom.injEq] at hminimize hmaximize
        simp only [atom?]
        split <;> simp_all

namespace Problem

/-- The keywords of the sections of a problem. -/
def keywords : List String :=
  ["problem", ":domain", ":objects", ":init", ":goal", ":metric", ":requirements"]

/-- What is reported of a section of a problem. -/
inductive Reports (item : Sexpr) : FormIssue → Prop
  | headless (h : item.head? = none) : Reports item (.unexpectedItem item)
  | nameless (h : item.head? = some "problem") (hname : leadingAtom? item.tail = none) :
      Reports item .missingProblemName
  | domainless (h : item.head? = some ":domain") (hname : leadingAtom? item.tail = none) :
      Reports item .missingProblemDomain
  | init {entry : Sexpr} {issue : FormIssue} (h : item.head? = some ":init")
      (hmem : entry ∈ item.tail) (hissue : InitReports entry issue) : Reports item issue
  | goal {form : Sexpr} {site : Site} {issue : WalkIssue} (h : item.head? = some ":goal")
      (hmem : form ∈ item.tail) (hsite : site ∈ conditionDescent.sites [] form)
      (hissue : ConditionReports site.node issue) : Reports item (.inGoal issue)
  | metric {issue : FormIssue} (h : item.head? = some ":metric")
      (hissue : MetricReports item issue) : Reports item issue
  | unknown {keyword : String} (h : item.head? = some keyword) (hkeyword : keyword ∉ keywords) :
      Reports item (.unknownProblemSection keyword)

variable {item : Sexpr} {issue : FormIssue}

theorem mem_initIssues_iff {body : List Sexpr} :
    issue ∈ initIssues body ↔ ∃ entry ∈ body, InitReports entry issue := by
  simp only [initIssues, List.mem_filterMap, InitEntry.issue?_ofSexpr]

theorem mem_issues_conditionsOfAll_iff {timing : Timing} {body : List Sexpr} {issue : WalkIssue} :
    issue ∈ (conditionsOfAll timing body).issues ↔
      ∃ form ∈ body, ∃ site ∈ conditionDescent.sites [] form,
        ConditionReports site.node issue := by
  induction body with
  | nil => simp [conditionsOfAll]
  | cons form body ih =>
    rw [List.exists_mem_cons_iff, ← ih, ← mem_issues_conditions_iff]
    exact List.mem_append

theorem sectionIssues_init (h : item.head? = some ":init") :
    sectionIssues item = initIssues item.tail := by
  rw [sectionIssues, addSection_init h, issues_foldl_initStep]
  rfl

theorem mem_sectionIssues_of_reports (h : Reports item issue) : issue ∈ sectionIssues item := by
  cases h with
  | headless h => simp [sectionIssues, addSection, h]
  | nameless h hname => simp [sectionIssues, addSection, h, hname]
  | domainless h hname => simp [sectionIssues, addSection, h, hname]
  | init h hmem hissue =>
    rw [sectionIssues_init h, mem_initIssues_iff]
    exact ⟨_, hmem, hissue⟩
  | goal h hmem hsite hissue =>
    have hgoal : _ ∈ (conditionsOfAll .instant item.tail).issues :=
      mem_issues_conditionsOfAll_iff.mpr ⟨_, hmem, _, hsite, hissue⟩
    simpa [sectionIssues, addSection, h] using hgoal
  | metric h hissue =>
    have hmetric := Metric.mem_ofSection_iff.mpr hissue
    simpa [sectionIssues, addSection, h] using hmetric
  | unknown h hkeyword =>
    simp only [keywords, List.mem_cons, List.not_mem_nil, or_false, not_or] at hkeyword
    unfold sectionIssues addSection
    simp only [h]
    split <;> simp_all

theorem reports_of_mem_sectionIssues (h : issue ∈ sectionIssues item) : Reports item issue := by
  by_cases hinit : item.head? = some ":init"
  · rw [sectionIssues_init hinit, mem_initIssues_iff] at h
    obtain ⟨entry, hmem, hissue⟩ := h
    exact .init hinit hmem hissue
  unfold sectionIssues addSection at h
  split at h
  case h_1 hhead => exact List.mem_singleton.mp h ▸ .headless hhead
  case h_2 hhead =>
    cases hname : leadingAtom? item.tail with
    | some name => simp [hname] at h
    | none =>
      obtain rfl : issue = .missingProblemName := by simpa [hname] using h
      exact .nameless hhead hname
  case h_3 hhead =>
    cases hname : leadingAtom? item.tail with
    | some name => simp [hname] at h
    | none =>
      obtain rfl : issue = .missingProblemDomain := by simpa [hname] using h
      exact .domainless hhead hname
  case h_5 hhead => exact absurd hhead hinit
  case h_6 hhead =>
    obtain ⟨walkIssue, hmem, rfl⟩ := List.mem_map.mp h
    obtain ⟨form, hform, site, hsite, hissue⟩ := mem_issues_conditionsOfAll_iff.mp hmem
    exact .goal hhead hform hsite hissue
  case h_7 hhead => exact .metric hhead (Metric.mem_ofSection_iff.mp h)
  case h_9 keyword _ _ _ _ _ _ _ hhead =>
    obtain rfl : issue = .unknownProblemSection keyword := by simpa using h
    exact .unknown hhead (by simp_all [keywords])
  -- the other sections are never reported
  all_goals simp at h

theorem mem_sectionIssues_iff : issue ∈ sectionIssues item ↔ Reports item issue :=
  ⟨reports_of_mem_sectionIssues, mem_sectionIssues_of_reports⟩

/-- What is reported of a problem is what is reported of its sections. -/
theorem mem_issues_iff {text : String} {parsed : Parsed Problem} (h : parse? text = some parsed) :
    issue ∈ parsed.issues ↔ ∃ item ∈ sectionsOf text, Reports item issue := by
  rw [eq_ofSections_of_parse? h, issues_ofSections, List.mem_flatMap]
  simp only [mem_sectionIssues_iff]

end Problem

end PlanPlayback
