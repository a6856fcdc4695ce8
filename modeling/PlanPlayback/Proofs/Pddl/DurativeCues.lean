import PlanPlayback.Proofs.Pddl.Declarations
import PlanPlayback.Proofs.Sexpr.RenderedParts

/-!
# Durative cues

An operator is written as a durative one if it is declared by `:durative-action`, if it has a duration,
or if a timing such as `at start` occurs in its text (`Operator.isDurative_iff`).

The last cue is looser than the others.  A timing occurs wherever two atoms stand side by side of
which the first ends and the second begins with its words (`Operator.contains_timing_iff`).  The words
of a timing wrapper stand side by side (`hasPair_of_isWrapper`), but the names of a predicate and of
an object can do so as well.
-/

namespace PlanPlayback

open Sexpr

/-! ## The duration of an operator -/

/-- The keys in the fields of an operator, each with the value that follows it. -/
def keysAndValues : List Sexpr → List (Sexpr × Sexpr)
  | key :: value :: rest => (key, value) :: keysAndValues rest
  | _ => []

namespace OperatorDraft

theorem isSome_duration_addField (draft : OperatorDraft) (key value : Sexpr) :
    (draft.addField key value).operator.duration.isSome = true ↔
      key = .atom ":duration" ∨ draft.operator.duration.isSome = true := by
  unfold addField
  -- one case for each key; any other key adds no duration
  split <;> cases key <;> simp_all [atom?]

theorem isSome_duration_addFields (draft : OperatorDraft) (fields : List Sexpr) :
    (draft.addFields fields).operator.duration.isSome = true ↔
      draft.operator.duration.isSome = true ∨
        ∃ value, (Sexpr.atom ":duration", value) ∈ keysAndValues fields := by
  fun_induction addFields draft fields with
  | case1 draft => simp [keysAndValues]
  | case2 draft key => simp [keysAndValues]
  | case3 draft key value rest ih =>
    have hpairs : (∃ found, (Sexpr.atom ":duration", found) ∈ keysAndValues (key :: value :: rest)) ↔
        key = .atom ":duration" ∨ ∃ found, (Sexpr.atom ":duration", found) ∈ keysAndValues rest := by
      simp [keysAndValues, exists_or, eq_comm]
    rw [ih, isSome_duration_addField, hpairs, or_assoc, or_left_comm]

end OperatorDraft

theorem OperatorKind.ofKeyword?_eq_durativeAction_iff {keyword : String} :
    ofKeyword? keyword = some .durativeAction ↔ keyword = ":durative-action" := by
  unfold ofKeyword?
  split <;> simp_all

/-! ## Timings in the text of an operator -/

/-- The words of the timings. -/
def timings : List (String × String) :=
  [("at", "start"), ("at", "end"), ("over", "all")]

/-- Whether the items of a list are a timing wrapper. -/
def isWrapper : List Sexpr → Bool
  | .atom head :: rest => (wrapperTiming? head rest).isSome
  | _ => false

/-- The words of a wrapper stand side by side. -/
theorem hasPair_of_isWrapper {items : List Sexpr} (h : isWrapper items = true) :
    ∃ timing ∈ timings, HasPair timing.1 timing.2 items := by
  unfold isWrapper at h
  split at h
  next head rest =>
    unfold wrapperTiming? at h
    split at h
    next second body =>
      have hmem : (head, second) ∈ timings := by
        simp only [timings, List.mem_cons, Prod.mk.injEq, List.not_mem_nil, or_false]
        split_ifs at h <;> simp_all
      exact ⟨_, hmem, head, second, ⟨[], [body], rfl⟩, List.suffix_rfl, List.prefix_rfl⟩
    · cases h
  · cases h

namespace Operator

variable {op : Operator} {text : String} {declaration : Sexpr}

/-- A timing is found in the text of an operator exactly if some list of its declaration has two atoms
side by side that make it. -/
theorem contains_timing_iff (h : op.IsDeclaredBy text declaration) {left right : String}
    (hleft : Token.IsWord left.toList) (hright : Token.IsWord right.toList) :
    Text.contains op.source (left ++ " " ++ right) = true ↔
      ∃ items ∈ declaration.groups, HasPair left right items := by
  have hpair : (left ++ " " ++ right).toList = pairOf left right := by
    simp [String.toList_append, pairOf]
  rw [Text.contains, Text.hasPart_iff, hpair, h.source]
  exact infix_pairOf_iff hleft hright fun leaf hleaf => (h.isPrepared leaf hleaf).isWord

theorem any_contains_timing_iff (h : op.IsDeclaredBy text declaration) :
    ["at start", "at end", "over all"].any (Text.contains op.source) = true ↔
      ∃ items ∈ declaration.groups, ∃ timing ∈ timings, HasPair timing.1 timing.2 items := by
  have hwords : ∀ timing ∈ timings,
      Token.IsWord timing.1.toList ∧ Token.IsWord timing.2.toList := by
    decide
  have htexts : ["at start", "at end", "over all"] =
      timings.map fun timing => timing.1 ++ " " ++ timing.2 := by
    decide
  rw [htexts, List.any_map, List.any_eq_true]
  constructor
  · rintro ⟨timing, hmem, hcontains⟩
    obtain ⟨hleft, hright⟩ := hwords timing hmem
    obtain ⟨items, hitems, hpair⟩ := (contains_timing_iff h hleft hright).mp hcontains
    exact ⟨items, hitems, timing, hmem, hpair⟩
  · rintro ⟨items, hitems, timing, hmem, hpair⟩
    obtain ⟨hleft, hright⟩ := hwords timing hmem
    exact ⟨timing, hmem, (contains_timing_iff h hleft hright).mpr ⟨items, hitems, hpair⟩⟩

theorem kind_eq_durativeAction_iff (h : op.IsDeclaredBy text declaration) :
    op.kind = .durativeAction ↔ declaration.head? = some ":durative-action" := by
  obtain ⟨keyword, hhead, hkind⟩ := Option.bind_eq_some_iff.mp (kind_of_declared? h.declares)
  rw [hhead, Option.some.injEq, ← OperatorKind.ofKeyword?_eq_durativeAction_iff, hkind,
    Option.some.injEq]

theorem isSome_duration_iff (h : op.IsDeclaredBy text declaration) :
    op.duration.isSome = true ↔
      ∃ value, (Sexpr.atom ":duration", value) ∈ keysAndValues (declaration.tail.drop 1) := by
  obtain ⟨kind, -, hop⟩ := Option.bind_eq_some_iff.mp h.declares
  obtain ⟨name, rfl⟩ := eq_addFields_of_ofSection hop
  rw [OperatorDraft.isSome_duration_addFields]
  simp

/-- What makes an operator durative. -/
theorem isDurative_iff (h : op.IsDeclaredBy text declaration) :
    op.isDurative = true ↔
      declaration.head? = some ":durative-action" ∨
        (∃ value, (Sexpr.atom ":duration", value) ∈ keysAndValues (declaration.tail.drop 1)) ∨
        ∃ items ∈ declaration.groups, ∃ timing ∈ timings, HasPair timing.1 timing.2 items := by
  rw [isDurative, Bool.or_eq_true, Bool.or_eq_true, beq_iff_eq, or_assoc,
    kind_eq_durativeAction_iff h, isSome_duration_iff h, any_contains_timing_iff h]

end Operator

namespace Domain

/-- **Durative cues are atoms side by side.**  An operator is written as a durative one exactly if it is
declared by `:durative-action`, has a duration, or has two atoms side by side in some list that make
a timing.  A timing wrapper is enough. -/
theorem durative_cues_are_pairs {text : String} {parsed : Parsed Domain}
    (h : parse? text = some parsed) :
    ∀ op ∈ parsed.value.operators, ∃ declaration, op.IsDeclaredBy text declaration ∧
      (op.isDurative = true ↔
        declaration.head? = some ":durative-action" ∨
          (∃ value, (Sexpr.atom ":duration", value) ∈
            keysAndValues (declaration.tail.drop 1)) ∨
          ∃ items ∈ declaration.groups, ∃ timing ∈ timings, HasPair timing.1 timing.2 items) ∧
      ∀ items ∈ declaration.groups, isWrapper items = true → op.isDurative = true := by
  intro op hop
  obtain ⟨declaration, hdeclared⟩ := exists_declaration_of_mem_operators h hop
  have hiff := Operator.isDurative_iff hdeclared
  refine ⟨declaration, hdeclared, hiff, fun items hitems hwrapper => ?_⟩
  exact hiff.mpr (.inr (.inr ⟨items, hitems, hasPair_of_isWrapper hwrapper⟩))

/-- An action with a wrapper in its effect is durative. -/
theorem resting_cues_are_pairs :
    let text := "(define (domain inn) (:action rest :effect (at end (rested))))"
    ∃ parsed, parse? text = some parsed ∧
      ∃ op ∈ parsed.value.operators, op.kind = .action ∧ op.duration = none ∧
        op.isDurative = true := by
  intro text
  have hread : (parse? text).any (fun parsed => parsed.value.operators.any fun op =>
      op.kind == .action && op.duration == none &&
        (readForms op.source).all fun form => form.groups.any isWrapper) = true := by
    decide +kernel
  obtain ⟨parsed, hparsed, hoperators⟩ := (Option.any_eq_true _ _).mp hread
  obtain ⟨op, hop, hfields⟩ := List.any_eq_true.mp hoperators
  simp only [Bool.and_eq_true, beq_iff_eq] at hfields
  obtain ⟨⟨hkind, hduration⟩, hforms⟩ := hfields
  obtain ⟨declaration, hdeclared, -, hwrappers⟩ := durative_cues_are_pairs hparsed op hop
  rw [hdeclared.readForms_source, List.all_cons, List.all_nil, Bool.and_true] at hforms
  obtain ⟨items, hitems, hwrapper⟩ := List.any_eq_true.mp hforms
  exact ⟨parsed, hparsed, op, hop, hkind, hduration, hwrappers items hitems hwrapper⟩

/-- Timing wrappers are not all that makes an action durative: a room whose name begins with `start`
does as well. -/
theorem not_durative_only_by_wrappers :
    ¬∀ (text : String) (parsed : Parsed Domain), parse? text = some parsed →
      ∀ op ∈ parsed.value.operators, ∃ declaration, op.IsDeclaredBy text declaration ∧
        (op.isDurative = true ↔
          declaration.head? = some ":durative-action" ∨
            (∃ value, (Sexpr.atom ":duration", value) ∈
              keysAndValues (declaration.tail.drop 1)) ∨
            ∃ items ∈ declaration.groups, isWrapper items = true) := by
  intro h
  let text := "(define (domain house) (:action enter :effect (at start-room)))"
  have hread : (parse? text).any (fun parsed => parsed.value.operators.any fun op =>
      op.kind != .durativeAction && op.duration.isNone && op.isDurative &&
        (readForms op.source).all fun form => !form.groups.any isWrapper) = true := by
    decide +kernel
  obtain ⟨parsed, hparsed, hoperators⟩ := (Option.any_eq_true _ _).mp hread
  obtain ⟨op, hop, hfields⟩ := List.any_eq_true.mp hoperators
  simp only [Bool.and_eq_true, bne_iff_ne, Option.isNone_iff_eq_none] at hfields
  obtain ⟨⟨⟨hkind, hduration⟩, hdurative⟩, hforms⟩ := hfields
  obtain ⟨declaration, hdeclared, hiff⟩ := h text parsed hparsed op hop
  rw [hdeclared.readForms_source, List.all_cons, List.all_nil, Bool.and_true] at hforms
  rcases hiff.mp hdurative with hhead | hkey | ⟨items, hitems, hwrapper⟩
  · exact hkind ((Operator.kind_eq_durativeAction_iff hdeclared).mpr hhead)
  · have hsome := (Operator.isSome_duration_iff hdeclared).mpr hkey
    rw [hduration] at hsome
    cases hsome
  · rw [List.any_eq_true.mpr ⟨items, hitems, hwrapper⟩] at hforms
    cases hforms

end Domain

end PlanPlayback
