import PlanPlayback.Pddl.Classification
import PlanPlayback.Proofs.Pddl.Calls

/-!
# Numeric cues

A domain is judged by the texts of its operators: numbers are looked for as the beginnings of lists,
such as `(increase `.  Such a cue is found in the text of an operator exactly if its declaration has a
list that begins with the word and has a further item (`contains_opening_iff`).  A name that merely
holds the word is no cue.

The stages of the cascade go by cues, by the numeric effects and by the comparisons of an operator.
All of these need a list with such a word at its beginning (`hasCallOf_of_computes`,
`hasCallOf_of_updates`), and so do the judgements that name the operator.
-/

namespace PlanPlayback

open Sexpr

/-! ## Cues in the text of an operator -/

/-- The heads of lists that make an action numeric. -/
def numericWords : List String :=
  updateWords ++ ["+", "-", "*", "/"] ++ comparators

theorem exists_word_of_mem_arithmeticOpenings :
    ∀ opening ∈ arithmeticOpenings, ∃ word ∈ numericWords,
      Token.IsWord word.toList ∧ opening = "(" ++ word ++ " " := by
  decide

theorem exists_word_of_mem_updateOpenings :
    ∀ opening ∈ updateOpenings, ∃ word ∈ updateWords,
      Token.IsWord word.toList ∧ opening = "(" ++ word ++ " " := by
  decide

namespace Operator

variable {op : Operator} {text : String} {declaration : Sexpr}

/-- The beginning of a list is found in the text of an operator exactly if its declaration has such a
list. -/
theorem contains_opening_iff (h : op.IsDeclaredBy text declaration) {word : String}
    (hword : Token.IsWord word.toList) :
    Text.contains op.source ("(" ++ word ++ " ") = true ↔ declaration.HasCall word := by
  have hopening : ("(" ++ word ++ " ").toList = openingOf word := by
    simp [String.toList_append, openingOf]
  rw [Text.contains, Text.hasPart_iff, hopening, h.source]
  exact infix_openingOf_iff hword fun leaf hleaf => (h.isPrepared leaf hleaf).isWord

theorem hasCallOf_of_hasOpening (h : op.IsDeclaredBy text declaration) {openings words : List String}
    (hopenings : ∀ opening ∈ openings, ∃ word ∈ words,
      Token.IsWord word.toList ∧ opening = "(" ++ word ++ " ")
    (hfound : op.hasOpening openings = true) : declaration.HasCallOf words := by
  obtain ⟨opening, hmem, hcontains⟩ := List.any_eq_true.mp hfound
  obtain ⟨word, hwords, hword, rfl⟩ := hopenings opening hmem
  exact ⟨word, hwords, (contains_opening_iff h hword).mp hcontains⟩

theorem hasCallOf_of_changesNumbers (h : op.IsDeclaredBy text declaration)
    (hchanges : op.changesNumbers = true) : declaration.HasCallOf updateWords := by
  have hne : op.numericEffects ≠ [] := by simpa [changesNumbers] using hchanges
  obtain ⟨effect, heffect⟩ := List.exists_mem_of_ne_nil _ hne
  exact (computesBy_of_declared? h.declares).effects effect heffect

/-- What makes a durative action metric. -/
theorem hasCallOf_of_updates (h : op.IsDeclaredBy text declaration)
    (hupdates : (op.changesNumbers || op.hasOpening updateOpenings) = true) :
    declaration.HasCallOf updateWords :=
  (Bool.or_eq_true_iff.mp hupdates).elim (hasCallOf_of_changesNumbers h)
    (hasCallOf_of_hasOpening h exists_word_of_mem_updateOpenings)

/-- What makes an action numeric. -/
theorem hasCallOf_of_computes (h : op.IsDeclaredBy text declaration)
    (hcomputes : (op.changesNumbers || !op.comparisons.isEmpty ||
      op.hasOpening arithmeticOpenings) = true) : declaration.HasCallOf numericWords := by
  rw [Bool.or_eq_true, Bool.or_eq_true] at hcomputes
  rcases hcomputes with (hchanges | hcompares) | hopening
  · obtain ⟨word, hword, hcall⟩ := hasCallOf_of_changesNumbers h hchanges
    exact ⟨word, List.mem_append_left _ (List.mem_append_left _ hword), hcall⟩
  · have hne : op.comparisons ≠ [] := by simpa using hcompares
    obtain ⟨comparison, hcomparison⟩ := List.exists_mem_of_ne_nil _ hne
    obtain ⟨word, hword, hcall⟩ :=
      (computesBy_of_declared? h.declares).comparisons comparison hcomparison
    exact ⟨word, List.mem_append_right _ hword, hcall⟩
  · exact hasCallOf_of_hasOpening h exists_word_of_mem_arithmeticOpenings hopening

end Operator

/-! ## The stages of the cascade -/

namespace Domain

variable {d : Domain} {j : Judgement}

theorem kind_of_pddlPlusJudgement? (h : d.pddlPlusJudgement? = some j) : j.kind = .of .pddlPlus := by
  unfold pddlPlusJudgement? at h
  obtain ⟨-, hj⟩ := Option.ite_none_left_eq_some.mp h
  obtain rfl := Option.some.inj hj
  rfl

theorem kind_of_classicalJudgement? (h : d.classicalJudgement? = some j) :
    j.kind = .of .classical := by
  unfold classicalJudgement? at h
  split at h
  · obtain rfl := Option.some.inj h
    rfl
  · cases h

/-- The third stage names an action that computes with numbers. -/
theorem of_numericJudgement? (h : d.numericJudgement? = some j) :
    j.kind = .of .numeric ∧ ∃ op ∈ d.actions,
      "Numeric operators in action '" ++ op.name ++ "'" ∈ j.indicators ∧
        (op.changesNumbers || !op.comparisons.isEmpty || op.hasOpening arithmeticOpenings) =
          true := by
  unfold numericJudgement? at h
  simp only at h
  split at h
  next indicator op hground hop =>
    obtain rfl := Option.some.inj h
    have hcomputes := List.find?_some hop
    exact ⟨rfl, op, List.mem_of_find?_eq_some hop, by simp, hcomputes⟩
  · cases h

/-- The second stage requires numbers or names a durative action that changes them, if it finds a
metric domain. -/
theorem of_temporalJudgement? (h : d.temporalJudgement? = some j) :
    j.kind = .of .temporal ∨ j.kind = .of .metricTemporal ∧
      ((∃ requirement ∈ d.requirements, requirement ∈ [":numeric-fluents", ":fluents"]) ∨
        ∃ op ∈ d.actions, op.isDurative = true ∧
          "Numeric effects in durative action '" ++ op.name ++ "'" ∈ j.indicators ∧
            (op.changesNumbers || op.hasOpening updateOpenings) = true) := by
  unfold temporalJudgement? at h
  split at h
  next requirement first others hrequired hdurative =>
    obtain rfl := Option.some.inj h
    rw [← hdurative]
    simp only
    cases haction : (d.actions.filter Operator.isDurative).find? fun op =>
        op.changesNumbers || op.hasOpening updateOpenings with
    | some op =>
      obtain ⟨hmem, hisDurative⟩ := List.mem_filter.mp (List.mem_of_find?_eq_some haction)
      have hupdates := List.find?_some haction
      exact .inr ⟨by simp, .inr ⟨op, hmem, hisDurative, by simp, hupdates⟩⟩
    | none =>
      cases hnumeric : d.firstRequirement? [":numeric-fluents", ":fluents"] with
      | none => exact .inl (by simp)
      | some wanted =>
        have hwanted := List.contains_iff_mem.mp (List.find?_some hnumeric)
        exact .inr ⟨by simp, .inl ⟨wanted, List.mem_of_find?_eq_some hnumeric, hwanted⟩⟩
  · cases h

/-- One of the stages decides. -/
theorem stage_of_judgement (d : Domain) :
    d.pddlPlusJudgement? = some d.judgement ∨ d.temporalJudgement? = some d.judgement ∨
      d.numericJudgement? = some d.judgement ∨ d.classicalJudgement? = some d.judgement ∨
        d.judgement.kind = .unknown := by
  unfold judgement
  cases d.pddlPlusJudgement? with
  | some j => simp
  | none =>
    cases d.temporalJudgement? with
    | some j => simp
    | none =>
      cases d.numericJudgement? with
      | some j => simp
      | none => cases d.classicalJudgement? <;> simp

theorem numericJudgement?_of_kind (h : d.judgement.kind = .of .numeric) :
    d.numericJudgement? = some d.judgement := by
  rcases stage_of_judgement d with hstage | hstage | hstage | hstage | hstage
  · simp [kind_of_pddlPlusJudgement? hstage] at h
  · rcases of_temporalJudgement? hstage with hkind | ⟨hkind, -⟩ <;> simp [hkind] at h
  · exact hstage
  · simp [kind_of_classicalJudgement? hstage] at h
  · simp [hstage] at h

theorem temporalJudgement?_of_kind (h : d.judgement.kind = .of .metricTemporal) :
    d.temporalJudgement? = some d.judgement := by
  rcases stage_of_judgement d with hstage | hstage | hstage | hstage | hstage
  · simp [kind_of_pddlPlusJudgement? hstage] at h
  · exact hstage
  · simp [(of_numericJudgement? hstage).1] at h
  · simp [kind_of_classicalJudgement? hstage] at h
  · simp [hstage] at h

/-! ## Cues and judgements -/

/-- **Numeric cues are lists of the declaration.**  The beginning of a list is found in the text of an
operator exactly if the declaration has such a list.  So a domain is judged numeric only by an action
that has such a list, and metric only by its requirements or by a durative action that has one. -/
theorem numeric_cues_are_calls {text : String} {parsed : Parsed Domain}
    (h : parse? text = some parsed) :
    (∀ op ∈ parsed.value.operators, ∃ declaration, op.IsDeclaredBy text declaration ∧
        ∀ opening ∈ updateOpenings ++ arithmeticOpenings, ∃ word, opening = "(" ++ word ++ " " ∧
          (Text.contains op.source opening = true ↔ declaration.HasCall word)) ∧
      (parsed.value.classify.kind = .of .numeric →
        ∃ op ∈ parsed.value.actions,
          "Numeric operators in action '" ++ op.name ++ "'" ∈ parsed.value.classify.indicators ∧
            ∃ declaration, op.IsDeclaredBy text declaration ∧
              declaration.HasCallOf numericWords) ∧
      (parsed.value.classify.kind = .of .metricTemporal →
        (∃ requirement ∈ parsed.value.requirements,
            requirement ∈ [":numeric-fluents", ":fluents"]) ∨
          ∃ op ∈ parsed.value.actions, op.isDurative = true ∧
            "Numeric effects in durative action '" ++ op.name ++ "'" ∈
                parsed.value.classify.indicators ∧
              ∃ declaration, op.IsDeclaredBy text declaration ∧
                declaration.HasCallOf updateWords) := by
  have hdeclared {op : Operator} (hop : op ∈ parsed.value.actions) :=
    exists_declaration_of_mem_operators h (mem_operators_iff.mpr ⟨_, List.mem_cons_self, hop⟩)
  refine ⟨fun op hop => ?_, fun hnumeric => ?_, fun hmetric => ?_⟩
  · obtain ⟨declaration, hop⟩ := exists_declaration_of_mem_operators h hop
    refine ⟨declaration, hop, fun opening hopening => ?_⟩
    have hall : updateOpenings ++ arithmeticOpenings ⊆ arithmeticOpenings := by decide
    obtain ⟨word, -, hword, rfl⟩ := exists_word_of_mem_arithmeticOpenings opening (hall hopening)
    exact ⟨word, rfl, Operator.contains_opening_iff hop hword⟩
  · obtain ⟨-, op, hop, hindicator, hcomputes⟩ :=
      of_numericJudgement? (numericJudgement?_of_kind hnumeric)
    obtain ⟨declaration, hdecl⟩ := hdeclared hop
    exact ⟨op, hop, hindicator, declaration, hdecl, Operator.hasCallOf_of_computes hdecl hcomputes⟩
  · have hkind : parsed.value.judgement.kind = .of .metricTemporal := hmetric
    rcases of_temporalJudgement? (temporalJudgement?_of_kind hkind) with
      htemporal | ⟨-, hrequired | ⟨op, hop, hdurative, hindicator, hupdates⟩⟩
    · simp [htemporal] at hkind
    · exact .inl hrequired
    · obtain ⟨declaration, hdecl⟩ := hdeclared hop
      exact .inr ⟨op, hop, hdurative, hindicator, declaration, hdecl,
        Operator.hasCallOf_of_updates hdecl hupdates⟩

/-- An action that is called like an update is numeric by the list that its effect is, and by this list
alone. -/
theorem pumping_cues_are_calls :
    let text := "(define (domain pump) (:functions (level))
      (:action assign :effect (increase (level) 1)))"
    ∃ parsed, parse? text = some parsed ∧
      (∃ op ∈ parsed.value.operators, op.name = "assign" ∧ ∃ declaration : Sexpr,
        op.IsDeclaredBy text declaration ∧ declaration.HasCall "increase" ∧
          ¬declaration.HasCall "assign") ∧
      parsed.value.classify.kind = .of .numeric ∧
        ∃ op ∈ parsed.value.actions, ∃ declaration : Sexpr,
          op.IsDeclaredBy text declaration ∧ declaration.HasCallOf numericWords := by
  intro text
  have hread : (parse? text).any (fun parsed =>
      parsed.value.classify.kind == .of .numeric && parsed.value.operators.any fun op =>
        op.name == "assign" && op.source == "(:action assign :effect (increase (level) 1))") =
          true := by
    decide +kernel
  obtain ⟨parsed, hparsed, hfacts⟩ := (Option.any_eq_true _ _).mp hread
  obtain ⟨hkind, hactions⟩ := Bool.and_eq_true_iff.mp hfacts
  obtain ⟨op, hop, hfields⟩ := List.any_eq_true.mp hactions
  obtain ⟨hname, hsource⟩ := Bool.and_eq_true_iff.mp hfields
  obtain ⟨hcues, hnumeric, -⟩ := numeric_cues_are_calls hparsed
  obtain ⟨declaration, hdeclared, hopenings⟩ := hcues op hop
  rw [beq_iff_eq.mp hsource] at hopenings
  have hword {word other : String} (h : "(" ++ word ++ " " = "(" ++ other ++ " ") : word = other :=
    (String.append_right_inj _).mp ((String.append_left_inj _).mp h)
  obtain ⟨word, hincrease, hcall⟩ := hopenings ("(" ++ "increase" ++ " ") (by decide)
  obtain rfl := hword hincrease
  obtain ⟨word, hassign, hnone⟩ := hopenings ("(" ++ "assign" ++ " ") (by decide)
  obtain rfl := hword hassign
  obtain ⟨action, haction, -, hnumbers⟩ := hnumeric (beq_iff_eq.mp hkind)
  exact ⟨parsed, hparsed,
    ⟨op, hop, beq_iff_eq.mp hname, declaration, hdeclared, hcall.mp (by decide +kernel),
      fun h => absurd (hnone.mpr h) (by decide +kernel)⟩,
    beq_iff_eq.mp hkind, action, haction, hnumbers⟩

end Domain

end PlanPlayback
