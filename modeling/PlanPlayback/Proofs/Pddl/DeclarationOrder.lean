import PlanPlayback.Proofs.Pddl.NumericCues

/-!
# The order of declarations

A domain may list its requirements and its operators in any order, and is judged to be of the same
kind in each (`kind_classify_of_isReordering`).  The confidence in the judgement is another matter.
Most stages of the cascade look at all requirements and all actions.  The third stage takes the
first action that computes with numbers, and corroborates the judgement if this one changes numbers
(`numericEvidence?`); another order may put another action first.

## Strategy

A judgement has a kind and is corroborated or not, its verdict; the indicators do depend on the
order.  `verdictWith` is the verdict of a domain if the third stage goes by a given evidence.  It
does not depend on the order (`verdictWith_of_isReordering`), and shows the evidence exactly if the
domain is numeric.  So all is left to the first element of a list that passes a test, which is alike
in all orders if all elements that pass it are (`map_find?_eq_of_perm_iff`).
-/

namespace PlanPlayback

/-- What the first element that passes a test looks like is the same in all orders of a list exactly
if all elements that pass it look the same. -/
theorem map_find?_eq_of_perm_iff {α β : Type} {passes : α → Bool} {look : α → β}
    {elements : List α} :
    (∀ reordered : List α, reordered.Perm elements →
        (reordered.find? passes).map look = (elements.find? passes).map look) ↔
      ∀ x ∈ elements, ∀ y ∈ elements, passes x = true → passes y = true → look x = look y := by
  constructor
  · intro h
    -- an element that passes comes first in one of the orders
    have hfirst : ∀ x ∈ elements, passes x = true →
        some (look x) = (elements.find? passes).map look := by
      intro x hx hpasses
      obtain ⟨front, behind, rfl⟩ := List.append_of_mem hx
      have hreordered := h (x :: (front ++ behind)) List.perm_middle.symm
      rwa [List.find?_cons_of_pos hpasses] at hreordered
    intro x hx y hy hpx hpy
    exact Option.some.inj ((hfirst x hx hpx).trans (hfirst y hy hpy).symm)
  · intro h reordered hperm
    cases hfound : elements.find? passes with
    | none =>
      have hnone : reordered.find? passes = none := by
        rw [List.find?_eq_none] at hfound ⊢
        exact fun x hx => hfound x (hperm.subset hx)
      rw [hnone]
    | some y =>
      have hpy : passes y = true := List.find?_some hfound
      have hy : y ∈ elements := List.mem_of_find?_eq_some hfound
      obtain ⟨x, hfirst⟩ : ∃ x, reordered.find? passes = some x :=
        Option.isSome_iff_exists.mp (List.find?_isSome.mpr ⟨y, hperm.symm.subset hy, hpy⟩)
      have hx := hperm.subset (List.mem_of_find?_eq_some hfirst)
      rw [hfirst]
      exact congrArg some (h x hx y hy (List.find?_some hfirst) hpy)

/-! ## Verdicts -/

/-- What a judgement says, without the indicators that it goes by. -/
def Judgement.verdict (j : Judgement) : DomainKind × Bool :=
  (j.kind, j.corroborated)

/-- The confidence in a verdict. -/
def confidenceIn (verdict : DomainKind × Bool) : Float :=
  if verdict.1 == .unknown then 0.3 else if verdict.2 then 0.95 else 0.9

theorem confidenceIn_inj {kind : DomainKind} (hkind : kind ≠ .unknown) {first second : Bool}
    (h : confidenceIn (kind, first) = confidenceIn (kind, second)) : first = second := by
  have hne : (0.95 : Float) ≠ 0.9 := by decide
  have hkind : (kind == .unknown) = false := by simpa using hkind
  simp only [confidenceIn, hkind, Bool.false_eq_true, if_false] at h
  cases first <;> cases second
  · rfl
  · exact absurd h.symm hne
  · exact absurd h hne
  · rfl

/-- Whether the third stage takes an action for one that computes with numbers. -/
def Operator.computes (op : Operator) : Bool :=
  op.changesNumbers || !op.comparisons.isEmpty || op.hasOpening arithmeticOpenings

namespace Domain

/-- Whether a domain has the declarations of another one, with requirements and operators in any
order. -/
structure IsReordering (d other : Domain) : Prop where
  name : other.name = d.name
  requirements : other.requirements.Perm d.requirements
  types : other.types = d.types
  constants : other.constants = d.constants
  predicates : other.predicates = d.predicates
  functions : other.functions = d.functions
  actions : other.actions.Perm d.actions
  processes : other.processes.Perm d.processes
  events : other.events.Perm d.events

theorem isReordering_of_perm (d : Domain) {actions : List Operator} (h : actions.Perm d.actions) :
    d.IsReordering { d with actions } :=
  ⟨rfl, .rfl, rfl, rfl, rfl, rfl, h, .rfl, .rfl⟩

/-- Whether an action corroborates that the domain is numeric. -/
def corroborates (d : Domain) (op : Operator) : Bool :=
  !d.functions.isEmpty && op.changesNumbers

/-- What the third stage goes by: whether the first action that computes with numbers corroborates
the judgement. -/
def numericEvidence? (d : Domain) : Option Bool :=
  (d.actions.find? Operator.computes).map d.corroborates

/-- Whether a requirement or a function says that there are numbers in a domain. -/
def admitsNumbers (d : Domain) : Bool :=
  d.requirements.any [":numeric-fluents", ":fluents"].contains || !d.functions.isEmpty

/-- The verdict on a domain if the third stage goes by `evidence?`. -/
def verdictWith (d : Domain) (evidence? : Option Bool) : DomainKind × Bool :=
  let earlier := (d.pddlPlusJudgement?.map Judgement.verdict).or
    (d.temporalJudgement?.map Judgement.verdict)
  let numeric := if d.admitsNumbers then evidence?.map (DomainKind.of .numeric, ·) else none
  (earlier.or (numeric.or (d.classicalJudgement?.map Judgement.verdict))).getD (.unknown, false)

/-! ## The stages -/

theorem isSome_firstRequirement? (d : Domain) (wanted : List String) :
    (d.firstRequirement? wanted).isSome = d.requirements.any wanted.contains := by
  rw [firstRequirement?, List.isSome_find?]

theorem verdict_pddlPlusJudgement? (d : Domain) :
    d.pddlPlusJudgement?.map Judgement.verdict =
      let evidence := !d.processes.isEmpty || !d.events.isEmpty ||
        d.operators.any fun op => Text.contains op.source "#t"
      let required := d.requirements.any fun r =>
        Text.contains r "process" || Text.contains r "event"
      if required || evidence then some (.of .pddlPlus, evidence) else none := by
  unfold pddlPlusJudgement?
  simp only [← List.isSome_find?]
  cases d.requirements.find? _ <;> cases d.operators.find? _ <;>
    cases !d.processes.isEmpty || !d.events.isEmpty <;> rfl

theorem verdict_temporalJudgement? (d : Domain) :
    d.temporalJudgement?.map Judgement.verdict =
      let durative := d.actions.filter Operator.isDurative
      let numeric := (durative.any fun op => op.changesNumbers || op.hasOpening updateOpenings) ||
        d.requirements.any [":numeric-fluents", ":fluents"].contains
      let evidence := durative.any fun op => op.kind == .durativeAction && op.duration.isSome
      if d.requirements.any [":durative-actions", ":time"].contains && !durative.isEmpty then
        some (.of (if numeric then .metricTemporal else .temporal), evidence)
      else none := by
  unfold temporalJudgement?
  simp only [isSome_firstRequirement?, List.isSome_find?]
  rw [← isSome_firstRequirement? d [":durative-actions", ":time"]]
  cases d.firstRequirement? [":durative-actions", ":time"] with
  | none => rfl
  | some requirement => cases d.actions.filter Operator.isDurative <;> rfl

theorem verdict_numericJudgement? (d : Domain) :
    d.numericJudgement?.map Judgement.verdict =
      if d.admitsNumbers then d.numericEvidence?.map (DomainKind.of .numeric, ·) else none := by
  have hcomputes : (fun op : Operator => op.changesNumbers || !op.comparisons.isEmpty ||
      op.hasOpening arithmeticOpenings) = Operator.computes := rfl
  unfold numericJudgement? admitsNumbers numericEvidence? corroborates
  simp only [hcomputes]
  rw [← isSome_firstRequirement?]
  cases d.firstRequirement? [":numeric-fluents", ":fluents"] with
  | some requirement => cases d.actions.find? Operator.computes <;> rfl
  | none => cases d.functions.isEmpty <;> cases d.actions.find? Operator.computes <;> rfl

theorem verdict_classicalJudgement? (d : Domain) :
    d.classicalJudgement?.map Judgement.verdict =
      if d.requirements.all [":strips", ":typing"].contains then
        some (.of .classical, d.functions.isEmpty &&
          d.actions.all fun op => !op.isDurative && !op.changesNumbers)
      else none := by
  unfold classicalJudgement?
  split <;> rfl

theorem verdict_judgement (d : Domain) :
    d.judgement.verdict = d.verdictWith d.numericEvidence? := by
  unfold judgement verdictWith
  rw [← verdict_numericJudgement?]
  cases d.pddlPlusJudgement? <;> cases d.temporalJudgement? <;> cases d.numericJudgement? <;>
    cases d.classicalJudgement? <;> rfl

/-! ## Evidence -/

/-- What the third stage goes by shows in the verdict on a numeric domain, and in no other. -/
theorem verdictWith_some (d : Domain) :
    (∀ evidence, d.verdictWith (some evidence) = (.of .numeric, evidence)) ∨
      ∃ verdict, ∀ evidence,
        d.verdictWith (some evidence) = verdict ∧ verdict.1 ≠ .of .numeric := by
  unfold verdictWith
  cases hplus : d.pddlPlusJudgement? with
  | some j =>
    refine .inr ⟨j.verdict, fun _ => ⟨rfl, ?_⟩⟩
    simp [Judgement.verdict, kind_of_pddlPlusJudgement? hplus]
  | none =>
    cases htemporal : d.temporalJudgement? with
    | some j =>
      refine .inr ⟨j.verdict, fun _ => ⟨rfl, ?_⟩⟩
      rcases of_temporalJudgement? htemporal with hkind | ⟨hkind, -⟩ <;>
        simp [Judgement.verdict, hkind]
    | none =>
      cases hadmits : d.admitsNumbers with
      | true => exact .inl fun _ => rfl
      | false =>
        cases hclassical : d.classicalJudgement? with
        | some j =>
          refine .inr ⟨j.verdict, fun _ => ⟨rfl, ?_⟩⟩
          simp [Judgement.verdict, kind_of_classicalJudgement? hclassical]
        | none => exact .inr ⟨(.unknown, false), fun _ => ⟨rfl, by simp⟩⟩

/-! ## Other orders -/

section

variable {d other : Domain} (h : d.IsReordering other)
include h

/-- The order of the declarations does not show in a verdict unless it shows in the evidence. -/
theorem verdictWith_of_isReordering (evidence? : Option Bool) :
    other.verdictWith evidence? = d.verdictWith evidence? := by
  have hoperators : other.operators.Perm d.operators :=
    (h.actions.append h.processes).append h.events
  have hdurative := h.actions.filter Operator.isDurative
  have hplus : other.pddlPlusJudgement?.map Judgement.verdict =
      d.pddlPlusJudgement?.map Judgement.verdict := by
    rw [verdict_pddlPlusJudgement?, verdict_pddlPlusJudgement?, h.requirements.any_eq,
      h.processes.isEmpty_eq, h.events.isEmpty_eq, hoperators.any_eq]
  have htemporal : other.temporalJudgement?.map Judgement.verdict =
      d.temporalJudgement?.map Judgement.verdict := by
    rw [verdict_temporalJudgement?, verdict_temporalJudgement?]
    simp only [h.requirements.any_eq, hdurative.any_eq, hdurative.isEmpty_eq]
  have hadmits : other.admitsNumbers = d.admitsNumbers := by
    rw [admitsNumbers, admitsNumbers, h.requirements.any_eq, h.functions]
  have hclassical : other.classicalJudgement?.map Judgement.verdict =
      d.classicalJudgement?.map Judgement.verdict := by
    rw [verdict_classicalJudgement?, verdict_classicalJudgement?, h.requirements.all_eq,
      h.functions, h.actions.all_eq]
  rw [verdictWith, verdictWith, hplus, htemporal, hadmits, hclassical]

theorem isSome_numericEvidence?_of_isReordering :
    other.numericEvidence?.isSome = d.numericEvidence?.isSome := by
  simp only [numericEvidence?, Option.isSome_map, List.isSome_find?, h.actions.any_eq]

/-- Two orders give the same verdict, or the domain is numeric and what they put first decides. -/
theorem verdict_of_isReordering :
    other.judgement.verdict = d.judgement.verdict ∨
      ∃ evidence evidence', d.numericEvidence? = some evidence ∧
        other.numericEvidence? = some evidence' ∧
          d.judgement.verdict = (.of .numeric, evidence) ∧
            other.judgement.verdict = (.of .numeric, evidence') := by
  have hsome := isSome_numericEvidence?_of_isReordering h
  rw [verdict_judgement, verdict_judgement, verdictWith_of_isReordering h]
  cases hd : d.numericEvidence? with
  | none =>
    rw [hd, Option.isSome_none, Option.isSome_eq_false_iff, Option.isNone_iff_eq_none] at hsome
    exact .inl (by rw [hsome])
  | some evidence =>
    rw [hd, Option.isSome_some] at hsome
    obtain ⟨evidence', hother⟩ := Option.isSome_iff_exists.mp hsome
    rw [hother]
    rcases verdictWith_some d with hnumeric | ⟨verdict, hverdict⟩
    · exact .inr ⟨evidence, evidence', rfl, rfl, hnumeric evidence, hnumeric evidence'⟩
    · exact .inl ((hverdict evidence').1.trans (hverdict evidence).1.symm)

theorem kind_classify_of_isReordering : other.classify.kind = d.classify.kind := by
  change other.judgement.verdict.1 = d.judgement.verdict.1
  rcases verdict_of_isReordering h with hsame | ⟨_, _, -, -, hd, hother⟩
  · rw [hsame]
  · rw [hd, hother]

end

theorem confidence_classify (d : Domain) :
    d.classify.confidence = confidenceIn d.judgement.verdict := rfl

/-- The evidence of a numeric domain, read off the judgement. -/
theorem numericEvidence?_of_kind {d : Domain} (hkind : d.classify.kind = .of .numeric) :
    d.numericEvidence? = some d.judgement.corroborated := by
  have hstage := verdict_numericJudgement? d
  rw [numericJudgement?_of_kind hkind] at hstage
  split_ifs at hstage
  · obtain ⟨evidence, hevidence, hverdict⟩ := Option.map_eq_some_iff.mp hstage.symm
    have hcorroborated : evidence = d.judgement.corroborated := congrArg Prod.snd hverdict
    rw [hevidence, hcorroborated]
  · cases hstage

/-- What the third stage goes by is the same in all orders exactly if all actions that compute with
numbers are alike. -/
theorem numericEvidence?_reorderings_iff (d : Domain) :
    (∀ other : Domain, d.IsReordering other → other.numericEvidence? = d.numericEvidence?) ↔
      ∀ first ∈ d.actions, ∀ second ∈ d.actions, first.computes = true → second.computes = true →
        d.corroborates first = d.corroborates second := by
  rw [← map_find?_eq_of_perm_iff]
  constructor
  · exact fun h reordered hperm => h _ (d.isReordering_of_perm hperm)
  · intro h other hother
    have hcorroborates : other.corroborates = d.corroborates := by
      funext op
      rw [corroborates, corroborates, hother.functions]
    rw [numericEvidence?, hcorroborates, h _ hother.actions]
    rfl

/-- The actions of a domain that compute with numbers all change numbers, or none of them does. -/
def AgreesOnNumbers (d : Domain) : Prop :=
  ∀ first ∈ d.actions, ∀ second ∈ d.actions, first.computes = true → second.computes = true →
    first.changesNumbers = second.changesNumbers

theorem forall_corroborates_eq_iff (d : Domain) :
    (∀ first ∈ d.actions, ∀ second ∈ d.actions, first.computes = true → second.computes = true →
        d.corroborates first = d.corroborates second) ↔ (d.functions ≠ [] → d.AgreesOnNumbers) := by
  cases hfunctions : d.functions with
  | nil => simp [corroborates, hfunctions]
  | cons decl rest => simp [corroborates, hfunctions, AgreesOnNumbers]

/-- **The order of declarations shows in the confidence only, and only in a numeric domain.**  The
kind of a domain is the same in every order of its requirements, actions, processes and events.
The confidence is the same in every order unless the domain is numeric, declares functions, and has
actions that compute with numbers of which some change numbers and others do not. -/
theorem classification_of_reorderings (d : Domain) :
    (∀ other : Domain, d.IsReordering other → other.classify.kind = d.classify.kind) ∧
      ((∀ other : Domain, d.IsReordering other →
          other.classify.confidence = d.classify.confidence) ↔
        (d.classify.kind = .of .numeric → d.functions ≠ [] → d.AgreesOnNumbers)) := by
  refine ⟨fun _ => kind_classify_of_isReordering, fun h hkind => ?_, fun h other hother => ?_⟩
  · rw [← forall_corroborates_eq_iff, ← numericEvidence?_reorderings_iff]
    intro other hother
    have hkind' := (kind_classify_of_isReordering hother).trans hkind
    have hconfidence := h other hother
    rw [confidence_classify, confidence_classify, Judgement.verdict,
      Judgement.verdict] at hconfidence
    rw [numericEvidence?_of_kind hkind', numericEvidence?_of_kind hkind]
    have hother_kind : other.judgement.kind = .of .numeric := hkind'
    have hd_kind : d.judgement.kind = .of .numeric := hkind
    rw [hother_kind, hd_kind] at hconfidence
    rw [confidenceIn_inj (by simp) hconfidence]
  · rw [confidence_classify, confidence_classify]
    rcases verdict_of_isReordering hother with hsame | ⟨_, _, hd, hother', hverdict, hverdict'⟩
    · rw [hsame]
    · have hkind : d.classify.kind = .of .numeric := congrArg Prod.fst hverdict
      have hall := (numericEvidence?_reorderings_iff d).mpr
        ((forall_corroborates_eq_iff d).mpr (h hkind))
      have hsame := hall other hother
      rw [hd, hother', Option.some_inj] at hsame
      rw [hverdict, hverdict', hsame]

/-- The definition of a domain with a function and two actions. -/
def tank (first second : Sexpr) : Sexpr :=
  .list [.atom "define", .list [.atom "domain", .atom "tank"],
    .list [.atom ":functions", .list [.atom "level"]], first, second]

/-- The declaration of an action that does something with the function and the number 1. -/
def tankAction (name field word : String) : Sexpr :=
  .list [.atom ":action", .atom name, .atom field,
    .list [.atom word, .list [.atom "level"], .atom "1"]]

/-- A domain with actions that fill and drain a tank is judged alike in both orders. -/
theorem tank_judged_alike :
    ∃ parsed, parse? ("(define (domain tank) (:functions (level)) " ++
        "(:action fill :effect (increase (level) 1)) " ++
        "(:action drain :effect (decrease (level) 1)))") = some parsed ∧
      parsed.value.classify.kind = .of .numeric ∧
        ∀ other : Domain, parsed.value.IsReordering other →
          other.classify.confidence = parsed.value.classify.confidence := by
  let form :=
    tank (tankAction "fill" ":effect" "increase") (tankAction "drain" ":effect" "decrease")
  have htext : form.render = "(define (domain tank) (:functions (level)) " ++
      "(:action fill :effect (increase (level) 1)) " ++
      "(:action drain :effect (decrease (level) 1)))" := by decide +kernel
  have hprepared : ∀ word ∈ form.leaves, IsPrepared word := by decide +kernel
  have hkind : (ofSections form.tail).value.classify.kind = .of .numeric := by decide +kernel
  have hactions : ∀ op ∈ (ofSections form.tail).value.actions, op.changesNumbers = true := by
    rw [← List.all_eq_true]
    decide +kernel
  refine ⟨ofSections form.tail, ?_, hkind, (classification_of_reorderings _).2.mpr ?_⟩
  · rw [← htext, parse?, definition?_render rfl hprepared]
    rfl
  · intro _ _ first hfirst second hsecond _ _
    rw [hactions first hfirst, hactions second hsecond]

/-- The order does show: where an action that only compares numbers comes first, the one that
changes them behind it is not seen. -/
theorem not_confidence_of_reorderings :
    ¬∀ d other : Domain, d.IsReordering other →
      other.classify.kind = d.classify.kind ∧
        other.classify.confidence = d.classify.confidence := by
  intro h
  let form :=
    tank (tankAction "check" ":precondition" ">=") (tankAction "fill" ":effect" "increase")
  let d := (ofSections form.tail).value
  have hconfidence : d.classify.confidence = 0.9 := by decide +kernel
  have hreversed : { d with actions := d.actions.reverse }.classify.confidence = 0.95 := by
    decide +kernel
  have hsame := (h d _ (isReordering_of_perm d d.actions.reverse_perm)).2
  rw [hreversed, hconfidence] at hsame
  exact absurd hsame (by decide)

end Domain

end PlanPlayback
