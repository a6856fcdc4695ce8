import PlanPlayback.Pddl.Consistency
import PlanPlayback.Proofs.Pddl.SectionBySection
import PlanPlayback.Proofs.Pddl.WalkLeaves

/-!
# What is checked about literals

The literals of a problem stand in its initial states and at the leaves of its goal
(`writtenInit`, `writtenGoal`).  Of each one the consistency check reports whether its predicate is
declared, and for as many arguments (`IsDue` tells when a report is due).

A literal is recorded with its sign in the name of the predicate, and checked without the sign.  So
the check goes by the predicate that is written, unless a positive literal has a predicate that
begins with the mark of negation: it is checked as the literal whose predicate is the rest of the
name (`WrittenLiteral.asRead`).

## Strategy

What a problem records is traced back to its text section by section; a section replaces what it is
about, or adds to it (`predicates_ofSections`, `init_ofSections`).  A record then determines the name
that is looked up (`unsignedPredicate_record`).
-/

namespace PlanPlayback

open Sexpr

/-! ## Literals as they are written -/

/-- A literal as it is written: a predicate with names as arguments, and whether a `not` stands
around it. -/
structure WrittenLiteral where
  isNegative : Bool
  predicate : String
  args : List String
  deriving DecidableEq

namespace WrittenLiteral

/-- The literal that a list is: its leading atom with the atoms behind it, or those of the item
behind a `not`. -/
def of? (node : Sexpr) : Option WrittenLiteral :=
  if node.head? = some "not" then
    node.tail.head?.bind fun inner =>
      inner.head?.map fun predicate => ⟨true, predicate, inner.tail.filterMap atom?⟩
  else node.head?.map fun predicate => ⟨false, predicate, node.tail.filterMap atom?⟩

/-- The literal that an entry of an initial state is; initial values and timed literals are none. -/
def ofInit? (entry : Sexpr) : Option WrittenLiteral :=
  if entry.head? = some "=" ∨ entry.head? = some "at" ∧ isTimedLiteral entry.tail = true then none
  else of? entry

/-- The literal that a leaf of a goal is; numeric comparisons are none. -/
def ofLeaf? (node : Sexpr) : Option WrittenLiteral :=
  if (node.head?.bind fun word => Comparison.of? .instant word node.tail).isSome then none
  else of? node

/-- How a literal is recorded. -/
def record (timing : Timing) (l : WrittenLiteral) : Literal :=
  if l.isNegative then Literal.negate ⟨l.predicate, l.args, timing⟩
  else ⟨l.predicate, l.args, timing⟩

/-- Whether a literal without a `not` is recorded as if it had one. -/
def HidesSign (l : WrittenLiteral) : Prop :=
  l.isNegative = false ∧ Literal.negationMark.toList <+: l.predicate.toList

instance (l : WrittenLiteral) : Decidable l.HidesSign :=
  inferInstanceAs (Decidable (_ ∧ _))

/-- The literal that a record is taken for when its predicate is looked up. -/
def asRead (l : WrittenLiteral) : WrittenLiteral :=
  if l.HidesSign then
    { l with predicate := String.ofList (l.predicate.toList.drop Literal.negationMark.length) }
  else l

theorem unsignedPredicate_record (l : WrittenLiteral) (timing : Timing) :
    (l.record timing).unsignedPredicate = l.asRead.predicate := by
  obtain ⟨isNegative, predicate, args⟩ := l
  cases isNegative with
  | true =>
    have hmark : Literal.negationMark.toList.length = Literal.negationMark.length :=
      String.length_toList
    simp [record, asRead, HidesSign, Literal.negate, Literal.unsignedPredicate, Literal.isNegated,
      ← hmark]
  | false =>
    simp only [record, asRead, HidesSign, Literal.unsignedPredicate, Literal.isNegated,
      List.isPrefixOf_iff_prefix, true_and, Bool.false_eq_true, if_false]
    split_ifs <;> rfl

theorem args_record (l : WrittenLiteral) (timing : Timing) :
    (l.record timing).args = l.asRead.args := by
  unfold record asRead
  split_ifs <;> rfl

theorem asRead_of_not_hidesSign {l : WrittenLiteral} (h : ¬l.HidesSign) : l.asRead = l :=
  if_neg h

/-- Without its first characters a predicate is another one. -/
theorem predicate_asRead_ne {l : WrittenLiteral} (h : l.HidesSign) :
    l.asRead.predicate ≠ l.predicate := by
  intro heq
  have hmark : Literal.negationMark.toList.length = Literal.negationMark.length :=
    String.length_toList
  have hpos : 0 < Literal.negationMark.length := by decide
  have hlonger := h.2.length_le
  have hdropped := congrArg (fun name => name.toList.length) heq
  simp only [asRead, if_pos h, String.toList_ofList, List.length_drop] at hdropped
  omega

end WrittenLiteral

/-! ## What is recorded of a problem -/

namespace Problem

/-- The literals in the initial states of a problem. -/
def writtenInit (text : String) : List WrittenLiteral :=
  (bodies ":init" (sectionsOf text)).filterMap WrittenLiteral.ofInit?

/-- The literals at the leaves of the goal of a problem. -/
def writtenGoal (text : String) : List WrittenLiteral :=
  ((lastBody ":goal" (sectionsOf text)).flatMap (conditionDescent.sites [])).filterMap fun site =>
    WrittenLiteral.ofLeaf? site.node

end Problem

theorem literal?_ofSexpr (entry : Sexpr) :
    (InitEntry.ofSexpr entry).literal? =
      (WrittenLiteral.ofInit? entry).map (WrittenLiteral.record .instant) := by
  unfold InitEntry.ofSexpr WrittenLiteral.ofInit? WrittenLiteral.of?
  cases hhead : entry.head? with
  | none => simp [InitEntry.literal?]
  | some head =>
    by_cases heq : head = "="
    · subst heq
      cases hnumber : InitialNumber.of? entry.tail <;> simp [InitEntry.literal?, hnumber]
    by_cases hnot : head = "not"
    · subst hnot
      cases hinner : entry.tail.head? with
      | none => simp [InitEntry.literal?, hinner]
      | some inner =>
        cases hpredicate : inner.head? <;>
          simp [InitEntry.literal?, hinner, hpredicate, Literal.ofSexpr?, WrittenLiteral.record]
    · by_cases htimed : head = "at" ∧ isTimedLiteral entry.tail = true
      · simp [InitEntry.literal?, htimed]
      · simp [InitEntry.literal?, heq, hnot, htimed, WrittenLiteral.record]

/-- Whether a list is a comparison does not depend on its timing. -/
theorem isSome_comparison (timing : Timing) (word : String) (rest : List Sexpr) :
    (Comparison.of? timing word rest).isSome = (Comparison.of? .instant word rest).isSome := by
  unfold Comparison.of?
  split
  · split_ifs <;> rfl
  · rfl

theorem literal?_negationFinding (timing : Timing) (node : Sexpr) :
    (negationFinding timing node).literal? =
      (node.tail.head?.bind fun inner => inner.head?.map fun predicate =>
        (⟨true, predicate, inner.tail.filterMap atom?⟩ : WrittenLiteral)).map
          (WrittenLiteral.record timing) := by
  unfold negationFinding
  cases hinner : node.tail.head? with
  | none => rfl
  | some inner =>
    cases hpredicate : inner.head? <;>
      simp [Finding.literal?, Literal.ofSexpr?, hpredicate, WrittenLiteral.record]

theorem literal?_conditionFinding (timing : Timing) (node : Sexpr) :
    (conditionFinding timing node).literal? =
      (WrittenLiteral.ofLeaf? node).map (WrittenLiteral.record timing) := by
  unfold conditionFinding WrittenLiteral.ofLeaf? WrittenLiteral.of?
  cases hhead : node.head? with
  | none => rfl
  | some word =>
    simp only [Option.bind_some, Option.some.injEq]
    by_cases hnot : word = "not"
    · subst hnot
      simp only [if_true, comparison_not, literal?_negationFinding]
      rfl
    · rw [← isSome_comparison timing]
      cases Comparison.of? timing word node.tail <;>
        simp [hnot, Finding.literal?, WrittenLiteral.record]

namespace Problem

variable {text : String} {parsed : Parsed Problem}

theorem init_of_parse? (h : parse? text = some parsed) :
    parsed.value.init = (writtenInit text).map (WrittenLiteral.record .instant) := by
  rw [eq_ofSections_of_parse? h, init_ofSections, initLiterals, writtenInit, List.map_filterMap]
  exact List.filterMap_congr fun entry _ => literal?_ofSexpr entry

/-- The literals of a goal are recorded with the timings of wrappers around them. -/
theorem exists_goal_of_parse? (h : parse? text = some parsed) :
    ∃ timing : Site → Timing, parsed.value.goal =
      ((lastBody ":goal" (sectionsOf text)).flatMap (conditionDescent.sites [])).filterMap
        fun site => (WrittenLiteral.ofLeaf? site.node).map (WrittenLiteral.record (timing site)) := by
  refine ⟨Site.timing .instant, ?_⟩
  have hwalk : conditions .instant = fun e =>
      .ofFindings (conditionDescent.findings conditionFinding .instant [] e) :=
    funext fun e => conditions_isStepOf.eq_ofFindings .instant [] e
  rw [eq_ofSections_of_parse? h, goal_ofSections, conditionsOfAll_eq, hwalk,
    joined_map_ofFindings]
  simp only [ Leaves.ofFindings, Descent.findings,
    List.filterMap_flatMap, List.filterMap_map, Function.comp_def, literal?_conditionFinding]

end Problem

/-- The declarations of predicates in a domain. -/
def Domain.declarations (text : String) : List Sexpr :=
  lastBody ":predicates" (sectionsOf text)

/-! ## The reports -/

/-- The predicate that a report is about, if it is about a literal. -/
def Inconsistency.predicate? : Inconsistency → Option String
  | .unknownPredicate predicate _ => some predicate
  | .wrongArity predicate .. => some predicate
  | _ => none

/-- Whether a report is about a literal. -/
def Inconsistency.isAboutLiteral (issue : Inconsistency) : Bool :=
  issue.predicate?.isSome

/-- Which report is due for a literal, given the declarations of predicates: that no declaration has
its predicate, or that the first one that has it declares another number of parameters. -/
inductive Inconsistency.IsDue (declarations : List Sexpr) (place : String) (l : WrittenLiteral) :
    Inconsistency → Prop where
  | unknown (hbuiltIn : l.predicate ≠ "=")
      (hnone : ∀ decl ∈ declarations, decl.head? ≠ some l.predicate) :
      IsDue declarations place l (.unknownPredicate l.predicate place)
  | arity {decl : Sexpr} (hbuiltIn : l.predicate ≠ "=")
      (hfirst : declarations.find? (fun decl => decl.head? == some l.predicate) = some decl)
      (hcount : (typedAtoms decl.tail).length ≠ l.args.length) :
      IsDue declarations place l
        (.wrongArity l.predicate place (typedAtoms decl.tail).length l.args.length)

/-- A report names the predicate that it is due for. -/
theorem Inconsistency.IsDue.predicate?_eq {declarations : List Sexpr} {place : String}
    {l : WrittenLiteral} {issue : Inconsistency} (h : issue.IsDue declarations place l) :
    issue.predicate? = some l.predicate := by
  cases h <;> rfl

namespace Domain

/-- What the consistency check reports of a literal. -/
def report? (d : Domain) (place : String) (l : WrittenLiteral) : Option Inconsistency :=
  d.literalFault? place (l.record .instant)

theorem literalFault?_record (d : Domain) (place : String) (l : WrittenLiteral) (timing : Timing) :
    d.literalFault? place (l.record timing) = d.report? place l := by
  simp only [report?, literalFault?, WrittenLiteral.unsignedPredicate_record,
    WrittenLiteral.args_record]

theorem isAboutLiteral_of_literalFault? {d : Domain} {place : String} {l : Literal}
    {issue : Inconsistency} (h : d.literalFault? place l = some issue) :
    issue.isAboutLiteral = true := by
  simp only [literalFault?] at h
  split_ifs at h
  split at h
  · exact Option.some.inj h ▸ rfl
  · split_ifs at h
    exact Option.some.inj h ▸ rfl

theorem filter_literalFault? (d : Domain) (place : String) (literals : List Literal) :
    (literals.filterMap (d.literalFault? place)).filter Inconsistency.isAboutLiteral =
      literals.filterMap (d.literalFault? place) := by
  refine List.filter_eq_self.mpr fun issue hissue => ?_
  obtain ⟨l, -, hl⟩ := List.mem_filterMap.mp hissue
  exact isAboutLiteral_of_literalFault? hl

theorem filter_inconsistencies (d : Domain) (p : Problem) :
    (d.inconsistencies p).filter Inconsistency.isAboutLiteral =
      p.init.filterMap (d.literalFault? "init") ++ p.goal.filterMap (d.literalFault? "goal") := by
  have hdomain : ((if p.domain != "" && p.domain != d.name then
      [Inconsistency.otherDomain p.domain d.name] else []).filter
        Inconsistency.isAboutLiteral) = [] := by
    split_ifs <;> rfl
  have htypes : ((if d.types.isEmpty then []
      else (p.objects.filter fun object => !d.knowsType object.type).map fun object =>
        Inconsistency.unknownType object.name object.type).filter
          Inconsistency.isAboutLiteral) = [] := by
    split_ifs <;> simp [List.filter_map, Function.comp_def, Inconsistency.isAboutLiteral,
        Inconsistency.predicate?]
  have hnumbers : (((p.numericInit.filter fun init => (d.function? init.function).isNone).map
      fun init => Inconsistency.undeclaredFunction init.function).filter
        Inconsistency.isAboutLiteral) = [] := by
    simp [List.filter_map, Function.comp_def, Inconsistency.isAboutLiteral,
        Inconsistency.predicate?]
  simp only [inconsistencies, List.filter_append, hdomain, htypes, hnumbers, filter_literalFault?,
    List.nil_append, List.append_nil]

theorem predicate?_of_predicates {d : Domain} {declarations : List Sexpr}
    (h : d.predicates = (PredicateDecl.ofSection declarations).1) (name : String) :
    d.predicate? name = (declarations.find? fun decl => decl.head? == some name).map fun decl =>
      ⟨name, typedAtoms decl.tail⟩ := by
  rw [predicate?, h, PredicateDecl.ofSection, List.find?_filterMap]
  have hsame : (fun decl : Sexpr => (decl.head?.map fun name =>
      (⟨name, typedAtoms decl.tail⟩ : PredicateDecl)).any fun decl => decl.name == name) =
      fun decl => decl.head? == some name := by
    funext decl
    cases decl.head? <;> simp
  rw [hsame]
  cases hfound : declarations.find? fun decl => decl.head? == some name with
  | none => rfl
  | some decl =>
    have hhead : decl.head? = some name := by simpa using List.find?_some hfound
    simp [hhead]

/-- What is reported of a literal is what is due for the literal that its record is taken for. -/
theorem report?_eq_some_iff {d : Domain} {declarations : List Sexpr}
    (h : d.predicates = (PredicateDecl.ofSection declarations).1) {place : String}
    {l : WrittenLiteral} {issue : Inconsistency} :
    d.report? place l = some issue ↔ issue.IsDue declarations place l.asRead := by
  simp only [report?, literalFault?, WrittenLiteral.unsignedPredicate_record,
    WrittenLiteral.args_record, predicate?_of_predicates h, beq_iff_eq]
  by_cases hbuiltIn : l.asRead.predicate = "="
  · rw [if_pos hbuiltIn]
    refine iff_of_false (by simp) ?_
    rintro (⟨hne, -⟩ | ⟨hne, -, -⟩) <;> exact hne hbuiltIn
  rw [if_neg hbuiltIn]
  cases hfound : declarations.find? fun decl => decl.head? == some l.asRead.predicate with
  | none =>
    have hnone : ∀ decl ∈ declarations, decl.head? ≠ some l.asRead.predicate := by
      simpa using hfound
    simp only [Option.map_none, Option.some.injEq]
    constructor
    · rintro rfl
      exact .unknown hbuiltIn hnone
    · rintro (_ | ⟨-, hfirst, -⟩)
      · rfl
      · rw [hfound] at hfirst
        cases hfirst
  | some decl =>
    simp only [Option.map_some, ne_eq, ite_not]
    constructor
    · intro hreport
      split_ifs at hreport with hcount
      obtain rfl := Option.some.inj hreport
      exact .arity hbuiltIn hfound hcount
    · rintro (⟨-, hnone⟩ | ⟨-, hfirst, hcount⟩)
      · exact absurd (by simpa using List.find?_some hfound)
          (hnone decl (List.mem_of_find?_eq_some hfound))
      · obtain rfl := Option.some.inj (hfound.symm.trans hfirst)
        rw [if_neg hcount]

variable {domainText problemText : String} {domain : Parsed Domain} {problem : Parsed Problem}

/-- **What is reported about literals.**  The reports about the literals of a problem are those of
the written literals, one by one and in order, where each is taken for the literal that its record
is read as.  They are the ones that are due exactly for literals that do not hide a sign, and for
those of which nothing is due either way. -/
theorem literal_reports_exact_iff (hdomain : parse? domainText = some domain)
    (hproblem : Problem.parse? problemText = some problem) :
    (domain.value.inconsistencies problem.value).filter Inconsistency.isAboutLiteral =
      (Problem.writtenInit problemText).filterMap (domain.value.report? "init") ++
        (Problem.writtenGoal problemText).filterMap (domain.value.report? "goal") ∧
    ∀ place l,
      (∀ issue, domain.value.report? place l = some issue ↔
        issue.IsDue (declarations domainText) place l.asRead) ∧
      ((∀ issue, domain.value.report? place l = some issue ↔
          issue.IsDue (declarations domainText) place l) ↔
        ¬l.HidesSign ∨ ∀ issue : Inconsistency,
          ¬issue.IsDue (declarations domainText) place l ∧
            ¬issue.IsDue (declarations domainText) place l.asRead) := by
  have hpredicates : domain.value.predicates =
      (PredicateDecl.ofSection (declarations domainText)).1 := by
    rw [eq_ofSections_of_parse? hdomain, predicates_ofSections, declarations]
  constructor
  · obtain ⟨timing, hgoal⟩ := Problem.exists_goal_of_parse? hproblem
    rw [filter_inconsistencies, Problem.init_of_parse? hproblem, hgoal, Problem.writtenGoal,
      List.filterMap_map, List.filterMap_filterMap, List.filterMap_filterMap]
    simp only [Function.comp_def, literalFault?_record, Option.bind_map]
  · intro place l
    have hreport : ∀ issue, domain.value.report? place l = some issue ↔
        issue.IsDue (declarations domainText) place l.asRead :=
      fun issue => report?_eq_some_iff hpredicates
    refine ⟨hreport, ?_⟩
    simp only [hreport]
    constructor
    · intro hexact
      by_cases hhides : l.HidesSign
      · -- no report names both the predicate that is written and the one that is looked up
        have hnever : ∀ issue : Inconsistency,
            issue.IsDue (declarations domainText) place l.asRead →
              ¬issue.IsDue (declarations domainText) place l := fun issue hread hdue =>
          l.predicate_asRead_ne hhides
            (Option.some.inj (hread.predicate?_eq.symm.trans hdue.predicate?_eq))
        refine .inr fun issue => ⟨fun hdue => ?_, fun hdue => ?_⟩
        · exact hnever issue ((hexact issue).mpr hdue) hdue
        · exact hnever issue hdue ((hexact issue).mp hdue)
      · exact .inl hhides
    · rintro (hplain | hnone) issue
      · rw [l.asRead_of_not_hidesSign hplain]
      · exact iff_of_false (hnone issue).2 (hnone issue).1

/-- Of a ball that is in the hall and not unready the reports are the ones that are due. -/
theorem hall_literal_reports_exact :
    let domainText := "(define (domain hall) (:predicates (in ?x ?y) (not-ready ?x)))"
    let problemText := "(define (problem p) (:init (in ball hall) (not (not-ready ball)) (lit a)))"
    ∃ domain problem, parse? domainText = some domain ∧
      Problem.parse? problemText = some problem ∧
      ∀ place, ∀ l ∈ Problem.writtenInit problemText, ∀ issue,
        domain.value.report? place l = some issue ↔
          issue.IsDue (declarations domainText) place l := by
  intro domainText problemText
  have hdomain : (parse? domainText).isSome = true := by decide +kernel
  have hproblem : (Problem.parse? problemText).isSome = true := by decide +kernel
  have hplain : ∀ l ∈ Problem.writtenInit problemText, ¬l.HidesSign := by decide +kernel
  obtain ⟨domain, hdomain⟩ := Option.isSome_iff_exists.mp hdomain
  obtain ⟨problem, hproblem⟩ := Option.isSome_iff_exists.mp hproblem
  exact ⟨domain, problem, hdomain, hproblem, fun place l hl =>
    ((literal_reports_exact_iff hdomain hproblem).2 place l).2.mpr (.inl (hplain l hl))⟩

/-- Not all reports are the ones that are due: a predicate that is declared is reported as unknown if
its name begins with the mark of negation. -/
theorem not_literal_reports_exact :
    ¬∀ (domainText problemText : String) (domain : Parsed Domain) (problem : Parsed Problem),
      parse? domainText = some domain → Problem.parse? problemText = some problem →
      domain.isClean = true → problem.isClean = true →
      ∀ l ∈ Problem.writtenInit problemText, ∀ issue,
        domain.value.report? "init" l = some issue ↔
          issue.IsDue (declarations domainText) "init" l := by
  intro h
  let domainText := "(define (domain d) (:predicates (not-ready)))"
  let problemText := "(define (problem p) (:domain d) (:init (not-ready)))"
  let l : WrittenLiteral := ⟨false, "not-ready", []⟩
  have hread : (parse? domainText).any (fun domain => domain.isClean &&
      domain.value.report? "init" l == some (.unknownPredicate "ready" "init")) = true := by
    decide +kernel
  have hproblem : (Problem.parse? problemText).any Parsed.isClean = true := by decide +kernel
  have hl : l ∈ Problem.writtenInit problemText := by decide +kernel
  obtain ⟨domain, hdomain, hfields⟩ := (Option.any_eq_true _ _).mp hread
  obtain ⟨problem, hproblem, hclean'⟩ := (Option.any_eq_true _ _).mp hproblem
  obtain ⟨hclean, hreport⟩ := by simpa using hfields
  have hdue := (h _ _ _ _ hdomain hproblem hclean hclean' l hl _).mp hreport
  exact absurd (Option.some.inj hdue.predicate?_eq) (by decide)

end Domain

end PlanPlayback
