import PlanPlayback.Proofs.Text.Words
import PlanPlayback.Transcript.ActionLine
import PlanPlayback.Transcript.SolutionFile

/-!
# What is taken from a line

A line has one of seven shapes, and each of them takes it apart in its own way.  Two things hold of
what is found, whatever the shape (`isWellFormed_of_scan`): the start is told by digits, or by the
place of the line, and name and arguments are words.  For the words it does not matter whether there
are parentheses around them or whether one of the two is missing, because no scanner looks for words
in a text that holds a parenthesis.

Every action goes back to one line.  One that a dialect finds on a line was found by a single rule, up
to the numeric effects next to it (`exists_apply_of_actionOnLine`), and one of a solution file was
made from a single entry (`exists_toAction?_of_mem_solutionActions`).
-/

namespace PlanPlayback.Transcript

open Text
open Token (IsWord)

/-! ## Times -/

/-- Whether a text begins with a digit, in any script. -/
def beginsWithDigit (text : List Char) : Bool :=
  text.head?.any Text.isDigit

theorem beginsWithDigit_of_digits? {text digits rest : List Char}
    (h : digits? text = some (digits, rest)) : beginsWithDigit digits = true := by
  simp only [digits?] at h
  split_ifs at h with hempty
  obtain ⟨rfl, -⟩ := Prod.mk.inj (Option.some.inj h)
  obtain ⟨c, others, hcons⟩ := List.exists_cons_of_ne_nil (mt List.isEmpty_iff.mpr hempty)
  have hc : Text.isDigit c = true := List.mem_takeWhile_imp (hcons ▸ List.mem_cons_self ..)
  rw [hcons, beginsWithDigit]
  exact hc

theorem beginsWithDigit_append {whole : List Char} (h : beginsWithDigit whole = true)
    (more : List Char) : beginsWithDigit (whole ++ more) = true := by
  cases whole with
  | nil => cases h
  | cons c others => exact h

theorem beginsWithDigit_of_numeral? {text digits rest : List Char}
    (h : Text.numeral? text = some (digits, rest)) : beginsWithDigit digits = true := by
  obtain ⟨⟨whole, behind⟩, hwhole, hdigits⟩ := Option.map_eq_some_iff.mp h
  have hbegin : beginsWithDigit whole = true := beginsWithDigit_of_digits? hwhole
  have hfront : digits = whole ∨ ∃ more, digits = whole ++ more := by
    dsimp only at hdigits
    split at hdigits
    · split at hdigits
      · exact .inr ⟨_, (Prod.mk.inj hdigits).1.symm⟩
      · exact .inl (Prod.mk.inj hdigits).1.symm
    · exact .inl (Prod.mk.inj hdigits).1.symm
  rcases hfront with rfl | ⟨more, rfl⟩
  · exact hbegin
  · exact beginsWithDigit_append hbegin more

/-- A start that is told by digits, or by the place of the line. -/
def TimeText.IsNumbered : TimeText → Prop
  | .lasting start _ | .between start _ | .at start | .step (some start) =>
      beginsWithDigit start = true
  | .step none => True

theorem beginsWithDigit_of_timeLabel? {text time rest : List Char}
    (h : timeLabel? text = some (time, rest)) : beginsWithDigit time = true := by
  simp only [timeLabel?, Option.bind_eq_bind, Option.bind_eq_some_iff, Prod.exists, Option.pure_def,
    Option.some_inj, Prod.mk.injEq] at h
  obtain ⟨digits, behind, hnumeral, _, _, rfl, _⟩ := h
  exact beginsWithDigit_of_numeral? hnumeral

/-! ## Words -/

theorem isWord_of_mem_words_parenFree {text token : List Char}
    (h : token ∈ words (parenFree text).1) : IsWord token := by
  refine isWord_of_mem_words (fun c hc => ?_) token h
  have hfree : (!isParen c) = true := List.mem_takeWhile_imp (p := fun c => !isParen c) hc
  simpa using hfree

theorem isWord_of_group? {text rest : List Char} {found : List (List Char)}
    (h : group? text = some (found, rest)) : ∀ token ∈ found, IsWord token := by
  simp only [group?, Option.bind_eq_bind, Option.bind_eq_some_iff] at h
  obtain ⟨inside, -, _, -, hfound⟩ := h
  split_ifs at hfound
  obtain ⟨rfl, -⟩ := Prod.mk.inj (Option.some.inj hfound)
  exact fun token => isWord_of_mem_words_parenFree

theorem isWord_of_callToEnd? {text : List Char} {found : List (List Char)}
    (h : callToEnd? text = some found) : ∀ token ∈ found, IsWord token := by
  simp only [callToEnd?] at h
  split_ifs at h
  obtain rfl := Option.some.inj h
  exact fun token => isWord_of_mem_words_parenFree

/-- A line that is told by its characters alone holds no parenthesis. -/
theorem isParen_of_isBareChar {c : Char} (h : isBareChar c = true) : isParen c = false := by
  have hopening : isBareChar '(' = false := by decide +kernel
  have hclosing : isBareChar ')' = false := by decide +kernel
  simp only [isParen, Bool.or_eq_false_iff, beq_eq_false_iff_ne]
  constructor
  · rintro rfl
    rw [hopening] at h
    cases h
  · rintro rfl
    rw [hclosing] at h
    cases h

/-! ## Shapes -/

/-- What a shape takes from a line: a start that is told by digits or by the place of the line, and
words. -/
structure LineMatch.IsWellFormed (found : LineMatch) : Prop where
  isNumbered : found.time.IsNumbered
  isWord : ∀ token ∈ found.name :: found.args, IsWord token

theorem isWellFormed_of_of? {time : TimeText} {tokens : List (List Char)} {found : LineMatch}
    (h : LineMatch.of? time tokens = some found) (htime : time.IsNumbered)
    (htokens : ∀ token ∈ tokens, IsWord token) : found.IsWellFormed := by
  cases tokens with
  | nil => cases h
  | cons name args =>
    obtain rfl := Option.some.inj h
    exact ⟨htime, htokens⟩

/-- **What a shape finds is well-formed.** -/
theorem isWellFormed_of_scan {shape : ActionShape} {line : List Char} {found : LineMatch}
    (h : shape.scan line = some found) : found.IsWellFormed := by
  cases shape with
  | bracketDuration =>
    simp only [ActionShape.scan, scanBracketDuration, Option.bind_eq_bind, Option.bind_eq_some_iff,
      Prod.exists] at h
    obtain ⟨start, rest, hlabel, tokens, _, hgroup, duration, _, hof⟩ := h
    exact isWellFormed_of_of? hof (beginsWithDigit_of_timeLabel? hlabel) (isWord_of_group? hgroup)
  | interval =>
    simp only [ActionShape.scan, scanInterval, Option.bind_eq_bind, Option.bind_eq_some_iff,
      Prod.exists] at h
    obtain ⟨_, _, start, _, hstart, _, _, finish, _, _, _, _, _, _, tokens, hcall, hof⟩ := h
    exact isWellFormed_of_of? hof (beginsWithDigit_of_numeral? hstart) (isWord_of_callToEnd? hcall)
  | atTime =>
    simp only [ActionShape.scan, scanAtTime, Option.bind_eq_bind, Option.bind_eq_some_iff,
      Prod.exists] at h
    obtain ⟨_, _, _, _, start, _, hlabel, tokens, hcall, hof⟩ := h
    exact isWellFormed_of_of? hof (beginsWithDigit_of_timeLabel? hlabel)
      (isWord_of_callToEnd? hcall)
  | timedBare =>
    simp only [ActionShape.scan, scanTimedBare, Option.bind_eq_bind, Option.bind_eq_some_iff,
      Prod.exists] at h
    obtain ⟨start, rest, hlabel, hof⟩ := h
    split_ifs at hof with hrefused
    have hfree : ∀ c ∈ rest, isParen c = false := by
      simp only [Bool.or_eq_true, not_or, List.any_eq_true, not_exists, not_and] at hrefused
      exact fun c hc => Bool.eq_false_iff.mpr (hrefused.1 c hc)
    exact isWellFormed_of_of? hof (beginsWithDigit_of_timeLabel? hlabel) (isWord_of_mem_words hfree)
  | timedParen =>
    simp only [ActionShape.scan, scanTimedParen, Option.bind_eq_bind, Option.bind_eq_some_iff,
      Prod.exists] at h
    obtain ⟨start, rest, hlabel, tokens, _, hgroup, hof⟩ := h
    exact isWellFormed_of_of? hof (beginsWithDigit_of_timeLabel? hlabel) (isWord_of_group? hgroup)
  | indexedParen =>
    rw [ActionShape.scan, scanIndexedParen] at h
    split at h
    case h_1 tokens _ hgroup => exact isWellFormed_of_of? h trivial (isWord_of_group? hgroup)
    case h_2 =>
      simp only [Option.bind_eq_bind, Option.bind_eq_some_iff, Prod.exists] at h
      obtain ⟨start, rest, hlabel, tokens, _, hgroup, hof⟩ := h
      exact isWellFormed_of_of? hof (beginsWithDigit_of_timeLabel? hlabel)
        (isWord_of_group? hgroup)
  | bare =>
    have hwords : ∀ token ∈ words (line.takeWhile isBareChar), IsWord token :=
      isWord_of_mem_words fun c hc => isParen_of_isBareChar (List.mem_takeWhile_imp hc)
    simp only [ActionShape.scan, scanBare] at h
    split_ifs at h
    split at h
    case h_1 name arg args hfound =>
      obtain rfl := Option.some.inj h
      exact ⟨trivial, hfound ▸ hwords⟩
    case h_2 => cases h

/-! ## Rules -/

variable {settings : DurationSettings} {position : ℕ} {line : List Char} {a : Action}

theorem exists_apply_of_firstApplying {rules : List ActionRule}
    (h : firstApplying rules settings position line = some a) :
    ∃ rule : ActionRule, rule.apply settings position line = some a := by
  obtain ⟨rule, -, happly⟩ := List.exists_of_findSome?_eq_some h
  exact ⟨rule, happly⟩

theorem exists_apply_of_temporalLine (h : temporalLine settings position line = some a) :
    ∃ rule : ActionRule, rule.apply settings position line = some a := by
  rcases Option.or_eq_some_iff.mp h with htemporal | ⟨-, hclassical⟩
  · exact exists_apply_of_firstApplying htemporal
  · exact exists_apply_of_firstApplying hclassical

/-- An action on a line was found by a rule, up to the numeric effects next to it. -/
theorem exists_apply_of_actionOnLine {dialect : Dialect}
    (h : actionOnLine dialect settings position line = some a) :
    ∃ (rule : ActionRule) (b : Action) (effects : List PlannedEffect),
      rule.apply settings position line = some b ∧ a = { b with effects } := by
  have hplain (hrule : ∃ rule : ActionRule, rule.apply settings position line = some a) :
      ∃ (rule : ActionRule) (b : Action) (effects : List PlannedEffect),
        rule.apply settings position line = some b ∧ a = { b with effects } := by
    obtain ⟨rule, happly⟩ := hrule
    exact ⟨rule, a, a.effects, happly, rfl⟩
  cases dialect with
  | classical => exact hplain (exists_apply_of_firstApplying h)
  | temporal => exact hplain (exists_apply_of_temporalLine h)
  | metricTemporal => exact hplain (exists_apply_of_temporalLine h)
  | pddlPlus => exact hplain (exists_apply_of_temporalLine h)
  | numeric =>
    obtain ⟨b, hb, rfl⟩ := Option.map_eq_some_iff.mp h
    obtain ⟨rule, happly⟩ := exists_apply_of_temporalLine hb
    exact ⟨rule, b, inlineEffects line, happly, rfl⟩

/-! ## Entries of a solution file -/

theorem exists_toAction?_of_mem_solutionActions {dialect : Dialect} {found : List SolutionEntry}
    (h : a ∈ solutionActions dialect settings position found) :
    ∃ (entry : SolutionEntry) (place : ℕ), entry.toAction? dialect settings place = some a := by
  induction found generalizing position with
  | nil => cases h
  | cons entry rest ih =>
    rw [solutionActions] at h
    cases hentry : entry.toAction? dialect settings position with
    | none =>
      rw [hentry] at h
      exact ih h
    | some action =>
      rw [hentry, List.mem_cons] at h
      rcases h with rfl | h
      · exact ⟨entry, position, hentry⟩
      · exact ih h

end PlanPlayback.Transcript
