import PlanPlayback.Proofs.Decimal.Nearest
import PlanPlayback.Proofs.Plan.Assembly
import PlanPlayback.Proofs.Transcript.LineReading
import PlanPlayback.Transcript.PlanReading

/-!
# Plans that were read are sound

Whatever the text, a plan that the rules of a dialect read from it is sound: the rules only take
digits for a time, so that no action starts before zero or at no time at all.  The reader of
solution files takes every numeral, among them `nan` and `-inf`.  Its plans are sound exactly if the
ends of all actions are numbers.

## Strategy

A shape that fits a line hands over texts that begin with a digit (`isWellFormed_of_scan`), so that
what is read from them is not negative (`nonneg_of_float?`).  This is carried from the rules to the
lines and to the plan; `Plan.isSound_assemble_iff` says what it is worth there.
-/

namespace PlanPlayback.Transcript

open Binary64 Decimal Text

/-! ## Numbers that begin with a digit -/

theorem toLower_eq_of_isDigit {c : Char} (hc : Text.isDigit c = true) : c.toLower = c := by
  simp only [Text.isDigit, Bool.or_eq_true, Bool.and_eq_true, decide_eq_true_eq] at hc
  rcases hc with hc | ⟨hc, -⟩
  · simpa using of_isDigit (P := fun d => d.toLower == d) (by decide) hc
  · apply Char.toLower_eq_of_not_isUpper
    have hval : c.val.toNat = c.toNat := rfl
    have hlast : 'Z'.val.toNat = 90 := rfl
    simp only [Char.isUpper, decide_eq_true_eq, UInt32.le_iff_toNat_le, hval, hlast]
    omega

/-- The only numerals with a sign or without a value begin with a sign or a letter. -/
theorem nonneg_of_float? {text : List Char} (hbegin : beginsWithDigit text = true) {x : Float}
    (h : Decimal.float? text = some x) : 0.0 ≤ x := by
  cases text with
  | nil => cases hbegin
  | cons c rest =>
    have hc : Text.isDigit c = true := hbegin
    have hne {d : Char} (hd : Text.isDigit d = false) : c ≠ d := by
      rintro rfl
      rw [hc] at hd
      cases hd
    have hread : Decimal.float? (c :: rest) = magnitude? (c :: rest) := by
      unfold Decimal.float?
      split
      · next heq => exact absurd (List.cons.inj heq).1 (hne (by decide))
      · next heq => exact absurd (List.cons.inj heq).1 (hne (by decide))
      · rfl
    have hnan : (c.toLower == 'n') = false := by
      rw [toLower_eq_of_isDigit hc]
      exact beq_eq_false_iff_ne.mpr (hne (by decide))
    rw [hread] at h
    simp only [magnitude?, List.map_cons, List.cons_beq_cons, hnan, Bool.false_and,
      Bool.false_eq_true, if_false] at h
    split_ifs at h with hinfinite
    · obtain rfl := Option.some.inj h
      decide +kernel
    · obtain ⟨n, -, rfl⟩ := Option.map_eq_some_iff.mp h
      exact n.zero_le_toFloat

/-! ## Actions -/

variable {settings : DurationSettings}

/-- An action that ends where its duration puts it and does not start before zero. -/
structure IsPlaced (a : Action) : Prop extends a.IsTimed where
  start_nonneg : 0.0 ≤ a.start

/-- Steps of a length that can be added up. -/
def HasStep (settings : DurationSettings) : Prop :=
  settings.classicalStep.isFinite = true ∧ 0.0 < settings.classicalStep

theorem nonneg_of_read? (hstep : HasStep settings) {time : TimeText} (h : time.IsNumbered)
    {position : ℕ} {start duration : Float}
    (hread : time.read? settings position = some (start, duration)) : 0.0 ≤ start := by
  cases time with
  | lasting startText durationText =>
    simp only [TimeText.read?, Option.bind_eq_bind, Option.bind_eq_some_iff, Option.pure_def,
      Option.some_inj, Prod.mk.injEq] at hread
    obtain ⟨_, _, t, ht, rfl, _⟩ := hread
    exact nonneg_of_float? h ht
  | between startText finishText =>
    simp only [TimeText.read?, Option.bind_eq_bind, Option.bind_eq_some_iff, Option.pure_def,
      Option.some_inj, Prod.mk.injEq] at hread
    obtain ⟨t, ht, _, _, rfl, _⟩ := hread
    exact nonneg_of_float? h ht
  | «at» startText =>
    obtain ⟨t, ht, heq⟩ := Option.map_eq_some_iff.mp hread
    obtain ⟨rfl, -⟩ := Prod.mk.inj heq
    exact nonneg_of_float? h ht
  | step startText =>
    cases startText with
    | some startText =>
      obtain ⟨t, ht, heq⟩ := Option.map_eq_some_iff.mp hread
      obtain ⟨rfl, -⟩ := Prod.mk.inj heq
      exact nonneg_of_float? h ht
    -- as many steps as there are actions before
    | none =>
      obtain ⟨rfl, -⟩ := Prod.mk.inj (Option.some.inj hread)
      exact Binary64.mul_nonneg hstep.1 hstep.2 (ofNat_nonneg position)

theorem isPlaced_of_apply (hstep : HasStep settings) {rule : ActionRule} {position : ℕ}
    {line : List Char} {a : Action} (h : rule.apply settings position line = some a) :
    IsPlaced a := by
  simp only [ActionRule.apply, LineMatch.toAction?, Option.map_eq_some_iff, Option.bind_eq_some_iff,
    Prod.exists] at h
  obtain ⟨_, ⟨found, hscan, start, duration, hread, rfl⟩, rfl⟩ := h
  exact ⟨⟨le_larger isNumber_zero, rfl⟩, nonneg_of_read? hstep (isWellFormed_of_scan hscan).isNumbered hread⟩

theorem isPlaced_of_actionOnLine (hstep : HasStep settings) {dialect : Dialect} {position : ℕ}
    {line : List Char} {a : Action} (h : actionOnLine dialect settings position line = some a) :
    IsPlaced a := by
  obtain ⟨rule, b, effects, happly, rfl⟩ := exists_apply_of_actionOnLine h
  have hplaced := isPlaced_of_apply hstep happly
  exact ⟨⟨hplaced.nonneg, hplaced.finish_eq⟩, hplaced.start_nonneg⟩

theorem isPlaced_of_mem_actionsOn (hstep : HasStep settings) {dialect : Dialect} {position : ℕ}
    {all : List (List Char)} : ∀ a ∈ actionsOn dialect settings position all, IsPlaced a := by
  induction all generalizing position with
  | nil => simp [actionsOn]
  | cons line rest ih =>
    rw [actionsOn]
    cases hline : actionOnLine dialect settings position line with
    | none => exact ih
    | some action =>
      rw [List.forall_mem_cons]
      exact ⟨isPlaced_of_actionOnLine hstep hline, ih⟩

theorem isTimed_of_mem_solutionActions {dialect : Dialect} {position : ℕ}
    {found : List SolutionEntry} :
    ∀ a ∈ solutionActions dialect settings position found, a.IsTimed := by
  intro a ha
  obtain ⟨entry, place, hentry⟩ := exists_toAction?_of_mem_solutionActions ha
  obtain ⟨⟨name, args⟩, -, rfl⟩ := Option.map_eq_some_iff.mp hentry
  exact ⟨le_larger isNumber_zero, rfl⟩

/-! ## Plans -/

theorem isSound_of_planIn? (hstep : HasStep settings) {dialect : Dialect} {text : String} {p : Plan}
    (h : planIn? dialect settings text = some p) : p.IsSound := by
  simp only [planIn?] at h
  split_ifs at h
  obtain rfl := Option.some.inj h
  have hplaced := @isPlaced_of_mem_actionsOn settings hstep dialect 0 (bodyLines text)
  refine (Plan.isSound_assemble_iff fun a ha => (hplaced a ha).toIsTimed).mpr fun a ha => ?_
  obtain ⟨b, hb, id, rfl⟩ := Plan.mem_actions_assemble ha
  have hstart : 0.0 ≤ b.start := (hplaced b hb).start_nonneg
  exact ⟨isNaN_eq_false_iff.mpr (nonneg_iff.mp hstart).1, .inr (.inr hstart)⟩

theorem isSound_iff_of_solution? {text : String} {p : Plan} (h : solution? settings text = some p) :
    p.IsSound ↔ ∀ a ∈ p.actions, a.start.isNaN = false ∧
      (a.start.isFinite = true ∨ a.duration.isFinite = true ∨ 0.0 ≤ a.start) := by
  simp only [solution?] at h
  split_ifs at h
  obtain rfl := Option.some.inj h
  exact Plan.isSound_assemble_iff isTimed_of_mem_solutionActions

/-- **What was read is sound.**  This holds of every plan that the rules of a dialect read, and of
the plan of a solution file exactly if no action starts at what is no number, or lasts for ever from
minus infinity on. -/
theorem plans_of_text_isSound (text : String) :
    (∀ dialect p, planIn? dialect {} text = some p → p.IsSound) ∧
      (∀ p, plan? {} text = some p → p.IsSound) ∧
      ∀ p, solution? {} text = some p → (p.IsSound ↔ ∀ a ∈ p.actions, a.start.isNaN = false ∧
        (a.start.isFinite = true ∨ a.duration.isFinite = true ∨ 0.0 ≤ a.start)) := by
  have hstep : HasStep {} := ⟨by decide +kernel, by decide +kernel⟩
  refine ⟨fun dialect p => isSound_of_planIn? hstep, fun p => isSound_of_planIn? hstep, ?_⟩
  exact fun p => isSound_iff_of_solution?

/-- All three readers on two lines that are out of order. -/
theorem pick_plans_isSound :
    let text := "; popf\n3: (drop ball) [1]\n1: (pick ball) [2]"
    (∃ p, planIn? .temporal {} text = some p ∧ p.actions.map Action.name = ["pick", "drop"] ∧
        p.IsSound) ∧
      (∃ p, plan? {} text = some p ∧ p.actions.map Action.name = ["pick", "drop"] ∧ p.IsSound) ∧
      ∃ p, solution? {} text = some p ∧ p.actions.map Action.name = ["pick", "drop"] ∧
        p.IsSound := by
  intro text
  obtain ⟨hplanIn, hplan, hsolution⟩ := plans_of_text_isSound text
  have hlt : orderKey 1.0 < orderKey 3.0 := by decide
  have hdialect : (detect text).dialect = .temporal := by decide +kernel
  have hlines : ((actionsOn .temporal {} 0 (bodyLines text)).map fun a => (a.name, a.place)) =
      [("drop", orderKey 3.0), ("pick", orderKey 1.0)] := by decide +kernel
  have hentries : ((solutionActions .temporal {} 0 (solutionLines (lines text.toList))).map
      fun a => (a.name, a.place)) = [("drop", orderKey 3.0), ("pick", orderKey 1.0)] := by
    decide +kernel
  have hfound : planIn? .temporal {} text = some (Plan.assemble .temporal
      (actionsOn .temporal {} 0 (bodyLines text)) (searchReport text)) := by
    have hsome : (actionsOn .temporal {} 0 (bodyLines text)).isEmpty = false := by decide +kernel
    simp [planIn?, hsome]
  have hdetected : plan? {} text = planIn? .temporal {} text := by rw [plan?, hdialect]
  obtain ⟨statistics, hsolved⟩ : ∃ statistics, solution? {} text = some (Plan.assemble .temporal
      (solutionActions .temporal {} 0 (solutionLines (lines text.toList))) statistics) := by
    have hkind : dialectOfLines (solutionLines (lines text.toList)) = .temporal := by
      decide +kernel
    have hsome : (solutionActions .temporal {} 0
        (solutionLines (lines text.toList))).isEmpty = false := by decide +kernel
    simp only [solution?, hkind, hsome]
    exact ⟨_, rfl⟩
  refine ⟨⟨_, hfound, Plan.names_assemble_of_lt hlines hlt, hplanIn _ _ hfound⟩,
    ⟨_, hdetected.trans hfound, Plan.names_assemble_of_lt hlines hlt,
      hplan _ (hdetected.trans hfound)⟩,
    _, hsolved, Plan.names_assemble_of_lt hentries hlt, (hsolution _ hsolved).mpr fun a ha => ?_⟩
  have hstarts : (solutionActions .temporal {} 0 (solutionLines (lines text.toList))).all
      (fun b => !b.start.isNaN && b.start.isFinite) = true := by decide +kernel
  obtain ⟨b, hb, id, rfl⟩ := Plan.mem_actions_assemble ha
  have hstart := List.all_eq_true.mp hstarts b hb
  rw [Bool.and_eq_true, Bool.not_eq_true'] at hstart
  exact ⟨hstart.1, .inl hstart.2⟩

/-- A start that is no number is taken from a solution file, and the action never ends. -/
theorem not_isSound_of_nan_start :
    ∃ p, solution? {} "nan: (a)\n0: (b)" = some p ∧ ¬p.IsSound := by
  have hdialect : dialectOfLines (solutionLines (lines "nan: (a)\n0: (b)".toList)) =
      .classical := by
    decide +kernel
  have hend : (solutionActions .classical {} 0
      (solutionLines (lines "nan: (a)\n0: (b)".toList))).any
        (fun a => !(a.finish == a.start + a.duration)) = true := by
    decide +kernel
  obtain ⟨a, ha, hne⟩ := List.any_eq_true.mp hend
  have hfound : (solutionActions .classical {} 0
      (solutionLines (lines "nan: (a)\n0: (b)".toList))).isEmpty = false :=
    List.isEmpty_eq_false_iff.mpr (List.ne_nil_of_mem ha)
  simp only [solution?, hdialect, hfound]
  refine ⟨_, rfl, fun hsound => ?_⟩
  obtain ⟨id, hmem⟩ := Plan.exists_mem_actions_assemble ha
  rw [hsound.finish_eq _ hmem] at hne
  cases hne

end PlanPlayback.Transcript
