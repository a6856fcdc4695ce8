import PlanPlayback.Proofs.Transcript.TimeEndings

/-!
# Decimal literals

A decimal literal is digits, perhaps with a fraction, and perhaps with an exponent.

The scanners of a report take the digits and the fraction of a literal and leave its exponent
(`DecimalLiteral.signedNumeral?_append`).  No time ends in front of an exponent
(`DecimalLiteral.endsTime_exponent_append_iff`).
-/

namespace PlanPlayback.Transcript

open Text

/-- The exponent of a literal: a mark, perhaps a sign, and digits. -/
def IsExponent (text : List Char) : Prop :=
  ∃ mark ∈ ['e', 'E'], ∃ sign ∈ [[], ['+'], ['-']], ∃ digits : List Char, digits ≠ [] ∧
    (∀ c ∈ digits, isDigit c = true) ∧ text = mark :: (sign ++ digits)

/-- The mark of an exponent is a letter with which no unit begins. -/
theorem of_mem_marks {mark : Char} (h : mark ∈ ['e', 'E']) :
    isDigit mark = false ∧ isWordChar mark = true ∧ mark ≠ '.' ∧
      ∀ w ∈ ['m', 's'], matchesIgnoringCase w mark = false := by
  have hall : (['e', 'E'].all fun mark => !isDigit mark && isWordChar mark && mark != '.' &&
      ['m', 's'].all fun w => !matchesIgnoringCase w mark) = true := by decide +kernel
  simpa [and_assoc] using List.all_eq_true.mp hall mark h

/-- Digits, perhaps a fraction and perhaps an exponent. -/
structure DecimalLiteral where
  whole : List Char
  fraction : List Char
  exponent : List Char
  whole_ne_nil : whole ≠ []
  isDigit_of_mem_whole : ∀ c ∈ whole, isDigit c = true
  isDigit_of_mem_fraction : ∀ c ∈ fraction, isDigit c = true
  isExponent : exponent = [] ∨ IsExponent exponent

namespace DecimalLiteral

/-- The literal without its exponent. -/
def number (l : DecimalLiteral) : List Char :=
  numberText l.whole l.fraction

def text (l : DecimalLiteral) : List Char :=
  l.number ++ l.exponent

/-- The literal as a time with a unit, in seconds. -/
def seconds (l : DecimalLiteral) (unit : Option (List Char)) : Option Float :=
  (Decimal.float? l.text).map (inSeconds · unit)

/-- Whether a literal is not continued by the text behind it. -/
structure EndsBefore (l : DecimalLiteral) (behind : List Char) : Prop where
  not_digit : ∀ c ∈ behind.head?, isDigit c = false
  not_fraction : l.fraction = [] → l.exponent = [] →
    ∀ c rest, behind = '.' :: c :: rest → isDigit c = false
  not_exponent : l.exponent = [] → ∀ exponent rest, IsExponent exponent → behind ≠ exponent ++ rest

variable {l : DecimalLiteral} {behind : List Char}

theorem text_append (l : DecimalLiteral) (behind : List Char) :
    l.text ++ behind = l.number ++ (l.exponent ++ behind) :=
  List.append_assoc _ _ _

theorem endsBefore_nil (l : DecimalLiteral) : l.EndsBefore [] where
  not_digit := by simp
  not_fraction := by simp
  not_exponent := by
    rintro - exponent rest ⟨mark, -, sign, -, digits, -, -, rfl⟩ h
    cases h

theorem endsBefore_cons {c : Char} (hdigit : isDigit c = false) (hpoint : c ≠ '.')
    (hmark : c ∉ ['e', 'E']) (rest : List Char) : l.EndsBefore (c :: rest) where
  not_digit := by simpa using hdigit
  not_fraction := fun _ _ _ _ heq => absurd (List.cons.inj heq).1 hpoint
  not_exponent := by
    rintro - exponent others ⟨mark, hmem, sign, -, digits, -, -, rfl⟩ heq
    exact hmark ((List.cons.inj heq).1 ▸ hmem)

theorem exists_exponent_eq_cons (h : l.exponent ≠ []) :
    ∃ mark rest, l.exponent = mark :: rest ∧ mark ∈ ['e', 'E'] := by
  obtain ⟨mark, hmark, sign, -, digits, -, -, htext⟩ := l.isExponent.resolve_left h
  exact ⟨mark, _, htext, hmark⟩

/-- The digits of a literal end in front of its exponent. -/
theorem EndsBefore.endsDigits (h : l.EndsBefore behind) :
    EndsDigits l.fraction (l.exponent ++ behind) := by
  by_cases hexponent : l.exponent = []
  · rw [hexponent, List.nil_append]
    exact ⟨h.not_digit, fun hfraction => h.not_fraction hfraction hexponent⟩
  · obtain ⟨mark, rest, htext, hmark⟩ := exists_exponent_eq_cons hexponent
    obtain ⟨hdigit, -, hpoint, -⟩ := of_mem_marks hmark
    rw [htext, List.cons_append]
    refine ⟨by simpa using hdigit, fun _ c others heq => ?_⟩
    exact absurd (List.cons.inj heq).1 hpoint

/-- No time ends in front of an exponent. -/
theorem endsTime_exponent_append_iff :
    EndsTime (l.exponent ++ behind) ↔ l.exponent = [] ∧ EndsTime behind := by
  by_cases hexponent : l.exponent = []
  · simp [hexponent]
  · obtain ⟨mark, rest, htext, hmark⟩ := exists_exponent_eq_cons hexponent
    obtain ⟨-, hword, -, hnot⟩ := of_mem_marks hmark
    have hunit : ∀ rest, isUnit (mark :: rest) = false := fun rest => by
      by_contra hunit
      obtain ⟨w, hw, hmatches⟩ := exists_matches_of_isUnit (by simpa using hunit)
      simp [hnot w hw] at hmatches
    simp [htext, EndsTime, firstWord_cons hword, hunit]

/-! ## Scanning -/

/-- All digits of a number are taken. -/
theorem numeral?_append {whole fraction behind : List Char} (hne : whole ≠ [])
    (hwhole : ∀ c ∈ whole, isDigit c = true) (hfraction : ∀ c ∈ fraction, isDigit c = true)
    (hends : EndsDigits fraction behind) :
    Text.numeral? (numberText whole fraction ++ behind) =
      some (numberText whole fraction, behind) := by
  unfold numberText
  split_ifs with hempty
  · rw [List.append_nil, Text.numeral?, digits?_append_of_isDigit hne hwhole hends.not_digit,
      Option.map_some]
    dsimp only
    split
    next rest =>
      have hnone : digits? rest = none := by
        cases rest with
        | nil => rfl
        | cons c rest =>
          have hc : isDigit c = false := hends.not_fraction hempty c rest rfl
          simp [digits?, hc]
      rw [hnone]
    next => rfl
  · have hpoint : ∀ c ∈ ('.' :: (fraction ++ behind)).head?, isDigit c = false := by
      rintro c ⟨⟩
      decide +kernel
    rw [List.append_assoc, List.cons_append, Text.numeral?,
      digits?_append_of_isDigit hne hwhole hpoint]
    simp [digits?_append_of_isDigit hempty hfraction hends.not_digit]

theorem signedNumeral?_append {sign : List Char} (hsign : sign ∈ [[], ['-']])
    (hends : l.EndsBefore behind) :
    signedNumeral? (sign ++ (l.text ++ behind)) =
      some (sign ++ l.number, l.exponent ++ behind) := by
  have hnumeral : Text.numeral? (l.text ++ behind) = some (l.number, l.exponent ++ behind) := by
    rw [l.text_append]
    exact numeral?_append l.whole_ne_nil l.isDigit_of_mem_whole l.isDigit_of_mem_fraction
      hends.endsDigits
  obtain rfl | rfl : sign = [] ∨ sign = ['-'] := by simpa using hsign
  · obtain ⟨c, others, hwhole⟩ := List.exists_cons_of_ne_nil l.whole_ne_nil
    have hc : isDigit c = true := l.isDigit_of_mem_whole c (by simp [hwhole])
    have htext : l.text ++ behind = c :: (l.text ++ behind).tail := by
      simp [text, number, numberText, hwhole]
    rw [List.nil_append, List.nil_append, ← hnumeral, htext]
    unfold signedNumeral?
    split
    next heq =>
      obtain rfl : c = '-' := (List.cons.inj heq).1
      exact absurd hc (by decide +kernel)
    next => rfl
  · change (Text.numeral? (l.text ++ behind)).map _ = _
    rw [hnumeral]
    rfl

end DecimalLiteral

end PlanPlayback.Transcript
