import PlanPlayback.Proofs.Pddl.Reports

/-!
# Forms that are skipped

Where a name is expected, any other form is skipped: among requirements, types, constants, objects
and parameters, and among the arguments of predicates and functions (`Domain.Skips`,
`Problem.Skips`).  Only atoms are names.

A form that is skipped is not reported.  `Domain.IsAboutNames` and `Problem.IsAboutNames` say which
reports would be about a place where a name is expected, and none of them is ever made:

* there is no report about a list of names (`Domain.not_reports_of_isNameList`);
* there is none about a leaf in which a name is expected (`ConditionExpects.not_reports`,
  `EffectExpects.not_reports`, `InitExpects.not_reports`);
* there is none about the parameters of an operator, a predicate or a function.

So what is skipped in a definition is noticed exactly if something else in it is reported.
-/

namespace PlanPlayback

open Sexpr

/-! ## Arguments -/

/-- Where a numeric expression expects the names of objects: behind the name of a function. -/
inductive IsArgument : Sexpr → Sexpr → Prop
  | function {name : String} {args : List Sexpr} {form : Sexpr}
      (hname : name ∉ ["+", "-", "*", "/"]) (hmem : form ∈ args) :
      IsArgument (.list (.atom name :: args)) form
  | operand {operator : String} {operands : List Sexpr} {operand form : Sexpr}
      (hoperator : operator ∈ ["+", "-", "*", "/"]) (hmem : operand ∈ operands)
      (h : IsArgument operand form) : IsArgument (.list (.atom operator :: operands)) form

/-- Where a negation expects names: in the literal in it. -/
def NegationExpects (node form : Sexpr) : Prop :=
  node.head? = some "not" ∧
    ∃ inner, node.tail.head? = some inner ∧ inner.head?.isSome = true ∧ form ∈ inner.tail

/-- Where a leaf of a condition expects names. -/
inductive ConditionExpects (node form : Sexpr) : Prop
  | literal {word : String} (h : node.head? = some word) (hword : word ≠ "not")
      (hliteral : Comparison.of? .instant word node.tail = none) (hmem : form ∈ node.tail)
  | comparison {word : String} {side : Sexpr} (h : node.head? = some word)
      (hcomparison : (Comparison.of? .instant word node.tail).isSome = true)
      (hside : side ∈ node.tail) (harg : IsArgument side form)
  | negation (h : NegationExpects node form)

/-- Where a leaf of an effect expects names. -/
inductive EffectExpects (node form : Sexpr) : Prop
  | literal {word : String} (h : node.head? = some word) (hword : word ≠ "not")
      (hliteral : Update.ofKeyword? word = none) (hmem : form ∈ node.tail)
  | update {word : String} {target amount : Sexpr} (h : node.head? = some word)
      (hword : (Update.ofKeyword? word).isSome = true) (htail : node.tail = [target, amount])
      (htarget : NamesFluent target) (hform : form ∈ target.tail ∨ IsArgument amount form)
  | negation (h : NegationExpects node form)

/-- Where an entry of an initial state expects names. -/
inductive InitExpects (entry form : Sexpr) : Prop
  | literal {word : String} (h : entry.head? = some word) (hword : word ∉ ["=", "not"])
      (htimed : ¬(word = "at" ∧ isTimedLiteral entry.tail = true)) (hmem : form ∈ entry.tail)
  | number {target : Sexpr} {value : String} (h : entry.head? = some "=")
      (htail : entry.tail = [target, .atom value])
      (hvalue : (Decimal.floatOf? value).isSome = true) (htarget : NamesFluent target)
      (hmem : form ∈ target.tail)
  | negation (h : NegationExpects entry form)

/-! ### Reports about leaves -/

section Leaves

variable {node entry form : Sexpr}

theorem NegationExpects.not_isBareNegation (h : NegationExpects node form) :
    ¬IsBareNegation node := by
  obtain ⟨-, inner, hinner, hhead, -⟩ := h
  intro hbare
  simp [hbare.2 inner hinner] at hhead

theorem not_isBareNegation_of_head {word : String} (h : node.head? = some word)
    (hword : word ≠ "not") : ¬IsBareNegation node :=
  fun hbare => hword (Option.some.inj (h.symm.trans hbare.1))

/-- Whatever is skipped in it, a leaf of a condition is not reported. -/
theorem ConditionExpects.not_reports (h : ConditionExpects node form) {issue : WalkIssue} :
    ¬ConditionReports node issue := by
  have hread : node.head? ≠ none ∧ ¬IsBareNegation node := by
    rcases h with ⟨hhead, hword, -, -⟩ | ⟨hhead, hcomparison, -, -⟩ | hnegation
    · exact ⟨by simp [hhead], not_isBareNegation_of_head hhead hword⟩
    · refine ⟨by simp [hhead], not_isBareNegation_of_head hhead ?_⟩
      rintro rfl
      simp [comparison_not] at hcomparison
    · exact ⟨by simp [hnegation.1], hnegation.not_isBareNegation⟩
  rintro (hnone | hbare)
  · exact hread.1 hnone
  · exact hread.2 hbare

/-- Whatever is skipped in it, a leaf of an effect is not reported. -/
theorem EffectExpects.not_reports (h : EffectExpects node form) {issue : WalkIssue} :
    ¬EffectReports node issue := by
  have hnot : Update.ofKeyword? "not" = none := by decide
  rcases h with ⟨hhead, hword, hliteral, -⟩ | ⟨hhead, hword, htail, htarget, -⟩ | hnegation
  · rintro (hnone | hbare | ⟨hhead', hupdate, -⟩)
    · simp [hhead] at hnone
    · exact not_isBareNegation_of_head hhead hword hbare
    · obtain rfl := Option.some.inj (hhead.symm.trans hhead')
      simp [hliteral] at hupdate
  · rintro (hnone | hbare | ⟨-, -, hoperands⟩)
    · simp [hhead] at hnone
    · refine not_isBareNegation_of_head hhead ?_ hbare
      rintro rfl
      simp [hnot] at hword
    · exact hoperands _ _ htail htarget
  · rintro (hnone | hbare | ⟨hhead, hupdate, -⟩)
    · simp [hnegation.1] at hnone
    · exact hnegation.not_isBareNegation hbare
    · obtain rfl := Option.some.inj (hnegation.1.symm.trans hhead)
      simp [hnot] at hupdate

/-- Whatever is skipped in it, an entry of an initial state is not reported. -/
theorem InitExpects.not_reports (h : InitExpects entry form) {issue : FormIssue} :
    ¬InitReports entry issue := by
  rcases h with ⟨hhead, hword, htimed, -⟩ | ⟨hhead, htail, hvalue, htarget, -⟩ | hnegation
  · simp only [List.mem_cons, List.not_mem_nil, or_false, not_or] at hword
    rintro (hnone | ⟨hhead', -⟩ | hbare | ⟨hhead', htimed'⟩)
    · simp [hhead] at hnone
    · exact hword.1 (Option.some.inj (hhead.symm.trans hhead'))
    · exact not_isBareNegation_of_head hhead hword.2 hbare
    · exact htimed ⟨Option.some.inj (hhead.symm.trans hhead'), htimed'⟩
  · rintro (hnone | ⟨-, hoperands⟩ | hbare | ⟨hhead', -⟩)
    · simp [hhead] at hnone
    · exact hoperands _ _ htail hvalue htarget
    · exact not_isBareNegation_of_head hhead (by decide) hbare
    · simp [hhead] at hhead'
  · rintro (hnone | ⟨hhead, -⟩ | hbare | ⟨hhead, -⟩)
    · simp [hnegation.1] at hnone
    · simp [hnegation.1] at hhead
    · exact hnegation.not_isBareNegation hbare
    · simp [hnegation.1] at hhead

end Leaves

/-! ### The reports that a leaf could be the subject of

A report names its leaf.  So it can only be about a leaf that it names, wherever it is made. -/

/-- The reports about a leaf of a condition. -/
def conditionIssuesOf (node : Sexpr) : List WalkIssue :=
  [.malformedCondition node, .malformedNegation node]

/-- The reports about a leaf of an effect. -/
def effectIssuesOf (node : Sexpr) : List WalkIssue :=
  [.malformedEffect node, .malformedNegation node, .malformedNumericEffect node]

/-- The reports about an entry of an initial state. -/
def initIssuesOf (entry : Sexpr) : List FormIssue :=
  [.malformedInit entry, .malformedNumericInit entry, .malformedNegatedInit entry,
    .timedLiteral entry]

section Issues

variable {node leaf form : Sexpr} {issue : WalkIssue}

/-- A report that names a leaf of a condition is due there, wherever it is made. -/
theorem conditionReports_of_mem (h : issue ∈ conditionIssuesOf node)
    (hreports : ConditionReports leaf issue ∨ EffectReports leaf issue) :
    ConditionReports node issue := by
  simp only [conditionIssuesOf, List.mem_cons, List.not_mem_nil, or_false] at h
  obtain rfl | rfl := h <;> obtain h | h := hreports <;> cases h
  case inl.inl.headless hhead => exact .headless hhead
  case inr.inl.negation hbare => exact .negation hbare
  case inr.inr.negation hbare => exact .negation hbare

/-- A report that names a leaf of an effect is due there, wherever it is made. -/
theorem effectReports_of_mem (h : issue ∈ effectIssuesOf node)
    (hreports : ConditionReports leaf issue ∨ EffectReports leaf issue) :
    EffectReports node issue := by
  simp only [effectIssuesOf, List.mem_cons, List.not_mem_nil, or_false] at h
  obtain rfl | rfl | rfl := h <;> obtain h | h := hreports <;> cases h
  case inl.inr.headless hhead => exact .headless hhead
  case inr.inl.inl.negation hbare => exact .negation hbare
  case inr.inl.inr.negation hbare => exact .negation hbare
  case inr.inr.inr.update hword hhead hoperands => exact .update hhead hword hoperands

/-- A report that names an entry of an initial state is due there. -/
theorem initReports_of_mem {entry other : Sexpr} {issue : FormIssue}
    (h : issue ∈ initIssuesOf entry) (hreports : InitReports other issue) :
    InitReports entry issue := by
  simp only [initIssuesOf, List.mem_cons, List.not_mem_nil, or_false] at h
  obtain rfl | rfl | rfl | rfl := h <;> cases hreports
  case inl.headless hhead => exact .headless hhead
  case inr.inl.number hhead hoperands => exact .number hhead hoperands
  case inr.inr.inl.negation hbare => exact .negation hbare
  case inr.inr.inr.timed hhead htimed => exact .timed hhead htimed

end Issues

/-! ## Operators -/

/-- Where the value of a key expects names. -/
inductive FieldExpects (key value form : Sexpr) : Prop
  | parameter (hkey : key = .atom ":parameters") (hmem : form ∈ typedForms value.items)
  | condition {site : Site} (hkey : key = .atom ":precondition" ∨ key = .atom ":condition")
      (hsite : site ∈ conditionDescent.sites [] value) (h : ConditionExpects site.node form)
  | effect {site : Site} (hkey : key = .atom ":effect")
      (hsite : site ∈ effectDescent.sites [] value) (h : EffectExpects site.node form)

/-- Which reports would be about a leaf of a value in which names are expected. -/
inductive FieldIsAboutNames (key value : Sexpr) : WalkIssue → Prop
  | condition {site : Site} {form : Sexpr} {issue : WalkIssue}
      (hkey : key = .atom ":precondition" ∨ key = .atom ":condition")
      (hsite : site ∈ conditionDescent.sites [] value) (h : ConditionExpects site.node form)
      (hissue : issue ∈ conditionIssuesOf site.node) : FieldIsAboutNames key value issue
  | effect {site : Site} {form : Sexpr} {issue : WalkIssue} (hkey : key = .atom ":effect")
      (hsite : site ∈ effectDescent.sites [] value) (h : EffectExpects site.node form)
      (hissue : issue ∈ effectIssuesOf site.node) : FieldIsAboutNames key value issue

/-- A key whose value expects names is one that is read. -/
theorem FieldExpects.exists_key_eq {key value form : Sexpr} (h : FieldExpects key value form) :
    ∃ word ∈ operatorKeys, key = .atom word := by
  rcases h with ⟨rfl, -⟩ | ⟨rfl | rfl, -, -⟩ | ⟨rfl, -, -⟩ <;> simp [operatorKeys]

theorem FieldReports.exists_leaf {key value : Sexpr} {issue : WalkIssue}
    (h : FieldReports key value issue) :
    ∃ leaf, ConditionReports leaf issue ∨ EffectReports leaf issue := by
  rcases h with ⟨-, -, h⟩ | ⟨-, -, h⟩
  · exact ⟨_, .inl h⟩
  · exact ⟨_, .inr h⟩

/-- No value of an operator is reported for a leaf in which names are expected. -/
theorem FieldIsAboutNames.not_reports {key value otherKey otherValue : Sexpr} {issue : WalkIssue}
    (h : FieldIsAboutNames key value issue) : ¬FieldReports otherKey otherValue issue := by
  intro hreports
  obtain ⟨leaf, hleaf⟩ := hreports.exists_leaf
  rcases h with ⟨-, -, hexpects, hissue⟩ | ⟨-, -, hexpects, hissue⟩
  · exact hexpects.not_reports (conditionReports_of_mem hissue hleaf)
  · exact hexpects.not_reports (effectReports_of_mem hissue hleaf)

/-! ## Domains and problems -/

namespace Domain

/-- Where a section of a domain expects names. -/
inductive Expects (item form : Sexpr) : Prop
  | requirement (h : item.head? = some ":requirements") (hmem : form ∈ item.tail)
  | type (h : item.head? = some ":types") (hmem : form ∈ typedForms item.tail)
  | constant (h : item.head? = some ":constants") (hmem : form ∈ typedForms item.tail)
  | ofPredicate {declaration : Sexpr} (h : item.head? = some ":predicates")
      (hdeclaration : declaration ∈ item.tail) (hhead : declaration.head?.isSome = true)
      (hmem : form ∈ typedForms declaration.tail)
  | ofFunction {declaration : Sexpr} (h : item.head? = some ":functions")
      (hdeclaration : declaration ∈ typedForms item.tail) (hhead : declaration.head?.isSome = true)
      (hmem : form ∈ typedForms declaration.tail)
  | inOperator {keyword name : String} {key value : Sexpr} (h : item.head? = some keyword)
      (hkind : (OperatorKind.ofKeyword? keyword).isSome = true)
      (hfield : Operator.HasField item name key value) (hform : FieldExpects key value form)

/-- Whether a section of a domain has a form where a name is expected: it is skipped. -/
def Skips (item form : Sexpr) : Prop :=
  Expects item form ∧ form.isList = true

/-- Nothing is reported of a list of names, whatever is in it. -/
theorem not_reports_of_isNameList {item : Sexpr} {keyword : String}
    (hkeyword : keyword ∈ [":requirements", ":types", ":constants"])
    (h : item.head? = some keyword) {issue : FormIssue} : ¬Reports item issue := by
  intro hreports
  obtain rfl | rfl | rfl : keyword = ":requirements" ∨ keyword = ":types" ∨
      keyword = ":constants" := by simpa using hkeyword
  all_goals cases hreports <;> simp_all [keywords, OperatorKind.ofKeyword?]

/-- Which reports would be about a place of a domain where names are expected. -/
inductive IsAboutNames (item : Sexpr) : FormIssue → Prop
  | nameList {keyword : String} {issue : FormIssue}
      (hkeyword : keyword ∈ [":requirements", ":types", ":constants"])
      (h : item.head? = some keyword) : IsAboutNames item issue
  | ofPredicate {declaration form : Sexpr} (h : item.head? = some ":predicates")
      (hdeclaration : declaration ∈ item.tail) (hhead : declaration.head?.isSome = true)
      (hmem : form ∈ typedForms declaration.tail) :
      IsAboutNames item (.malformedPredicate declaration)
  | ofFunction {declaration form : Sexpr} (h : item.head? = some ":functions")
      (hdeclaration : declaration ∈ typedForms item.tail) (hhead : declaration.head?.isSome = true)
      (hmem : form ∈ typedForms declaration.tail) :
      IsAboutNames item (.malformedFunction declaration)
  | ofKey {name : String} {key value form : Sexpr} (hfield : Operator.HasField item name key value)
      (hform : FieldExpects key value form) : IsAboutNames item (.unknownKey name key)
  | inOperator {name : String} {key value : Sexpr} {issue : WalkIssue}
      (hfield : Operator.HasField item name key value) (h : FieldIsAboutNames key value issue) :
      IsAboutNames item (.inOperator name issue)

/-- Nothing is reported of a place where names are expected. -/
theorem IsAboutNames.not_reports {item : Sexpr} {issue : FormIssue} (h : IsAboutNames item issue) :
    ¬Reports item issue := by
  intro hreports
  cases h with
  | nameList hkeyword hhead => exact not_reports_of_isNameList hkeyword hhead hreports
  | ofPredicate _ _ hhead _ =>
    rcases hreports with _ | _ | ⟨-, -, hnone⟩ | _ | ⟨-, -, hoperator⟩ | _
    · simp [hnone] at hhead
    · cases hoperator
  | ofFunction _ _ hhead _ =>
    rcases hreports with _ | _ | _ | ⟨-, -, hnone⟩ | ⟨-, -, hoperator⟩ | _
    · simp [hnone] at hhead
    · cases hoperator
  | ofKey _ hform =>
    obtain ⟨word, hword, hkey⟩ := hform.exists_key_eq
    rcases hreports with _ | _ | _ | _ | ⟨-, -, hoperator⟩ | _
    cases hoperator with
    | unknownKey _ hunknown => exact hunknown word hword hkey
  | inOperator _ hnames =>
    rcases hreports with _ | _ | _ | _ | ⟨-, -, hoperator⟩ | _
    cases hoperator with
    | inField _ hfield => exact hnames.not_reports hfield

end Domain

namespace Problem

/-- Where a section of a problem expects names. -/
inductive Expects (item form : Sexpr) : Prop
  | requirement (h : item.head? = some ":requirements") (hmem : form ∈ item.tail)
  | object (h : item.head? = some ":objects") (hmem : form ∈ typedForms item.tail)
  | init {entry : Sexpr} (h : item.head? = some ":init") (hentry : entry ∈ item.tail)
      (hform : InitExpects entry form)
  | goal {goal : Sexpr} {site : Site} (h : item.head? = some ":goal") (hgoal : goal ∈ item.tail)
      (hsite : site ∈ conditionDescent.sites [] goal) (hform : ConditionExpects site.node form)
  | metric {direction expression : Sexpr} (h : item.head? = some ":metric")
      (htail : item.tail = [direction, expression])
      (hdirection : direction = .atom "minimize" ∨ direction = .atom "maximize")
      (hform : IsArgument expression form)

/-- Whether a section of a problem has a form where a name is expected: it is skipped. -/
def Skips (item form : Sexpr) : Prop :=
  Expects item form ∧ form.isList = true

/-- Nothing is reported of a list of names, whatever is in it. -/
theorem not_reports_of_isNameList {item : Sexpr} {keyword : String}
    (hkeyword : keyword ∈ [":requirements", ":objects"]) (h : item.head? = some keyword)
    {issue : FormIssue} : ¬Reports item issue := by
  intro hreports
  obtain rfl | rfl : keyword = ":requirements" ∨ keyword = ":objects" := by simpa using hkeyword
  all_goals cases hreports <;> simp_all [keywords]

/-- Which reports would be about a place of a problem where names are expected. -/
inductive IsAboutNames (item : Sexpr) : FormIssue → Prop
  | nameList {keyword : String} {issue : FormIssue}
      (hkeyword : keyword ∈ [":requirements", ":objects"]) (h : item.head? = some keyword) :
      IsAboutNames item issue
  | init {entry form : Sexpr} {issue : FormIssue} (h : item.head? = some ":init")
      (hentry : entry ∈ item.tail) (hform : InitExpects entry form)
      (hissue : issue ∈ initIssuesOf entry) : IsAboutNames item issue
  | goal {goal form : Sexpr} {site : Site} {issue : WalkIssue} (h : item.head? = some ":goal")
      (hgoal : goal ∈ item.tail) (hsite : site ∈ conditionDescent.sites [] goal)
      (hform : ConditionExpects site.node form) (hissue : issue ∈ conditionIssuesOf site.node) :
      IsAboutNames item (.inGoal issue)
  | metric {direction expression form : Sexpr} {issue : FormIssue} (h : item.head? = some ":metric")
      (htail : item.tail = [direction, expression])
      (hdirection : direction = .atom "minimize" ∨ direction = .atom "maximize")
      (hform : IsArgument expression form)
      (hissue : issue ∈ [.malformedMetric item, .unknownDirection direction]) :
      IsAboutNames item issue

/-- Nothing is reported of a place where names are expected. -/
theorem IsAboutNames.not_reports {item : Sexpr} {issue : FormIssue} (h : IsAboutNames item issue) :
    ¬Reports item issue := by
  intro hreports
  cases h with
  | nameList hkeyword hhead => exact not_reports_of_isNameList hkeyword hhead hreports
  | init hhead _ hform hissue =>
    have hinit : issue ∈ initIssues item.tail :=
      sectionIssues_init hhead ▸ mem_sectionIssues_of_reports hreports
    obtain ⟨other, -, hother⟩ := mem_initIssues_iff.mp hinit
    exact hform.not_reports (initReports_of_mem hissue hother)
  | goal _ _ _ hform hissue =>
    rcases hreports with _ | _ | _ | ⟨-, -, hinit⟩ | ⟨-, -, -, hgoal⟩ | ⟨-, hmetric⟩ | _
    · cases hinit
    · exact hform.not_reports (conditionReports_of_mem hissue (.inl hgoal))
    · cases hmetric
  | metric hhead htail hdirection _ hissue =>
    have hmetric : MetricReports item issue := by
      simpa [sectionIssues, addSection, hhead, Metric.mem_ofSection_iff] using
        mem_sectionIssues_of_reports hreports
    rcases hmetric with hlength | ⟨htail', hminimize, hmaximize⟩
    · simp [htail] at hlength
    · obtain ⟨rfl, -⟩ : _ ∧ _ := by simpa using htail.symm.trans htail'
      exact hdirection.elim hminimize hmaximize

end Problem

/-! ## What is noticed -/

/-- How the reports about a definition are related to what is skipped in it, given what is reported
of a section, what is skipped in it, and which reports would be about a place of it where names are
expected. -/
structure IsNoticedBy (issues : List FormIssue) (sections : List Sexpr)
    (reports : Sexpr → FormIssue → Prop) (skips : Sexpr → Sexpr → Prop)
    (isAboutNames : Sexpr → FormIssue → Prop) : Prop where
  /-- The reports are those about the sections. -/
  reported : ∀ issue, issue ∈ issues ↔ ∃ item ∈ sections, reports item issue
  /-- If a form is skipped, there is a report, exactly in these two cases: the report is then about
  something else. -/
  noticed_iff : ((∃ item ∈ sections, ∃ form, skips item form) → issues ≠ []) ↔
    (∀ item ∈ sections, ∀ form, ¬skips item form) ∨
      ∃ item ∈ sections, ∃ issue, reports item issue ∧ ¬isAboutNames item issue

theorem isNoticedBy_of_mem_iff {issues : List FormIssue} {sections : List Sexpr}
    {reports : Sexpr → FormIssue → Prop} {skips : Sexpr → Sexpr → Prop}
    {isAboutNames : Sexpr → FormIssue → Prop}
    (h : ∀ issue, issue ∈ issues ↔ ∃ item ∈ sections, reports item issue)
    (hnames : ∀ item issue, isAboutNames item issue → ¬reports item issue) :
    IsNoticedBy issues sections reports skips isAboutNames where
  reported := h
  noticed_iff := by
    have hany : issues ≠ [] ↔
        ∃ item ∈ sections, ∃ issue, reports item issue ∧ ¬isAboutNames item issue := by
      constructor
      · intro hne
        obtain ⟨issue, hissue⟩ := List.exists_mem_of_ne_nil issues hne
        obtain ⟨item, hitem, hreports⟩ := (h issue).mp hissue
        exact ⟨item, hitem, issue, hreports, fun habout => hnames item issue habout hreports⟩
      · rintro ⟨item, hitem, issue, hreports, -⟩
        exact List.ne_nil_of_mem ((h issue).mpr ⟨item, hitem, hreports⟩)
    rw [hany]
    constructor
    · intro hnoticed
      by_cases hskips : ∃ item ∈ sections, ∃ form, skips item form
      · exact .inr (hnoticed hskips)
      · exact .inl fun item hitem form hform => hskips ⟨item, hitem, form, hform⟩
    · rintro (hnone | hreports) ⟨item, hitem, form, hform⟩
      · exact absurd hform (hnone item hitem form)
      · exact hreports

/-- **What is skipped is noticed only through something else.**  The reports about a domain or a
problem are those of `Domain.Reports` and `Problem.Reports`, none of which is about a form where a
name is expected.  So a text in which such a form is skipped is a clean one, unless something else
in it is reported. -/
theorem skipped_forms_noticed_iff (text : String) :
    (∀ parsed, Domain.parse? text = some parsed →
      IsNoticedBy parsed.issues (sectionsOf text) Domain.Reports Domain.Skips
        Domain.IsAboutNames) ∧
    ∀ parsed, Problem.parse? text = some parsed →
      IsNoticedBy parsed.issues (sectionsOf text) Problem.Reports Problem.Skips
        Problem.IsAboutNames :=
  ⟨fun _ h => isNoticedBy_of_mem_iff (fun _ => Domain.mem_issues_iff h)
      fun _ _ => Domain.IsAboutNames.not_reports,
    fun _ h => isNoticedBy_of_mem_iff (fun _ => Problem.mem_issues_iff h)
      fun _ _ => Problem.IsAboutNames.not_reports⟩

/-- In a harbour without a name, a boat that is skipped among the types is noticed. -/
theorem harbour_skips_noticed :
    let text := "(define (domain) (:types truck (boat)))"
    ∃ parsed, Domain.parse? text = some parsed ∧
      (∃ item ∈ sectionsOf text, ∃ form, Domain.Skips item form) ∧ parsed.issues ≠ [] := by
  intro text
  have hread : (Domain.parse? text).isSome = true := by decide +kernel
  have hnameless : (sectionsOf text).any (fun item => item.head? == some "domain" &&
      leadingAtom? item.tail == none) = true := by decide +kernel
  have hskips : (sectionsOf text).any (fun item => item.head? == some ":types" &&
      (typedForms item.tail).any Sexpr.isList) = true := by decide +kernel
  obtain ⟨parsed, hparsed⟩ := Option.isSome_iff_exists.mp hread
  simp only [List.any_eq_true, Bool.and_eq_true, beq_iff_eq] at hnameless hskips
  obtain ⟨name, hname, hnamed, hnone⟩ := hnameless
  obtain ⟨types, htypes, hhead, form, hform, hlist⟩ := hskips
  have hskipped : ∃ item ∈ sectionsOf text, ∃ form, Domain.Skips item form :=
    ⟨types, htypes, form, .type hhead hform, hlist⟩
  have hapart : ¬Domain.IsAboutNames name .missingDomainName := by
    rintro ⟨hkeyword, hlist⟩
    obtain rfl := Option.some.inj (hnamed.symm.trans hlist)
    simp at hkeyword
  have hreported : ∃ item ∈ sectionsOf text, ∃ issue,
      Domain.Reports item issue ∧ ¬Domain.IsAboutNames item issue :=
    ⟨name, hname, _, .nameless hnamed hnone, hapart⟩
  exact ⟨parsed, hparsed, hskipped,
    ((skipped_forms_noticed_iff text).1 parsed hparsed).noticed_iff.mpr (.inr hreported) hskipped⟩

/-- Not all that is skipped is noticed: without other reports, a list among the types goes by. -/
theorem not_skipped_forms_noticed :
    ¬∀ text parsed, Domain.parse? text = some parsed →
      (∃ item ∈ sectionsOf text, ∃ form, Domain.Skips item form) → parsed.issues ≠ [] := by
  intro h
  let text := "(define (domain yard) (:types truck (boat)))"
  have hclean : (Domain.parse? text).any Parsed.isClean = true := by decide +kernel
  have hskips : (sectionsOf text).any (fun item => item.head? == some ":types" &&
      (typedForms item.tail).any Sexpr.isList) = true := by decide +kernel
  obtain ⟨parsed, hparsed, hclean⟩ := (Option.any_eq_true _ _).mp hclean
  simp only [List.any_eq_true, Bool.and_eq_true, beq_iff_eq] at hskips
  obtain ⟨item, hitem, hhead, form, hform, hlist⟩ := hskips
  refine h text parsed hparsed ⟨item, hitem, form, .type hhead hform, hlist⟩ ?_
  simpa [Parsed.isClean] using hclean

end PlanPlayback
