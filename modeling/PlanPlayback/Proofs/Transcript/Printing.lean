import PlanPlayback.Plan.Basic
import PlanPlayback.Proofs.Decimal.Notation
import PlanPlayback.Proofs.Playback.Clamping
import PlanPlayback.Proofs.Text.Occurrence
import PlanPlayback.Proofs.Text.Words
import PlanPlayback.Transcript.ActionLine

/-!
# Printed action lines

An action is printed with its start in front, `t: (name args)`, and with its duration behind it,
`t: (name args) [d]`.  This file says how such a line is made of its parts, and how the scanners
take it apart again.

A token is printed as it is, so it must be a word, and it must not be changed by lower case.  The
start must not have a minus sign, which no reader of lines expects.
-/

namespace PlanPlayback

/-- Name and arguments. -/
def Action.tokens (a : Action) : List String :=
  a.name :: a.args

/-- What is read from a printed action: its call and its start, with a duration and the rule that
recognised the line. -/
def Action.recorded (a : Action) (duration : Float) (rule : String) : Action :=
  { name := a.name, args := a.args, start := a.start, duration, finish := a.start + duration,
    rule := some rule }

namespace Transcript

open Binary64 Decimal Text
open Token (IsWord isPlain isPlain_iff)

/-- The action of a call with a start and a duration. -/
def called (name : List Char) (args : List (List Char)) (start duration : Float) : Action :=
  Action.make (String.ofList (lowercase name)) (args.map fun arg => String.ofList (lowercase arg))
    start duration

/-- A rule that recognises a call makes an action of it. -/
theorem apply_of_scan (rule : ActionRule) {settings : DurationSettings} {position : ℕ}
    {line name : List Char} {args : List (List Char)} {time : TimeText} {start duration : Float}
    (hscan : rule.shape.scan line = some ⟨time, name, args⟩)
    (hread : time.read? settings position = some (start, duration)) :
    rule.apply settings position line =
      some { called name args start duration with
        rule := some rule.name, startBits := time.startBits settings position } := by
  rw [ActionRule.apply, hscan, Option.bind_some, LineMatch.toAction?, hread]
  rfl

/-- A word in lower case. -/
def IsToken (token : String) : Prop :=
  IsWord token.toList ∧ lowercased token = token

instance (token : String) : Decidable (IsToken token) :=
  inferInstanceAs (Decidable (_ ∧ _))

/-- An action that is printed as a single line and keeps its start. -/
structure IsPrintable (a : Action) : Prop where
  isToken : ∀ token ∈ a.tokens, IsToken token
  isFinite : a.start.isFinite = true
  zero_le : orderKey 0.0 ≤ orderKey a.start

instance (a : Action) : Decidable (IsPrintable a) :=
  decidable_of_iff ((∀ token ∈ a.tokens, IsToken token) ∧ a.start.isFinite = true ∧
      orderKey 0.0 ≤ orderKey a.start)
    ⟨fun h => ⟨h.1, h.2.1, h.2.2⟩, fun h => ⟨h.isToken, h.isFinite, h.zero_le⟩⟩

/-- `t: (name args)` -/
def timedText (a : Action) : String :=
  positional a.start ++ ": " ++ a.signature

/-- `t: (name args) [d]` -/
def lastingText (a : Action) : String :=
  timedText a ++ " [" ++ positional a.duration ++ "]"

section Tokens

variable {tokens : List String}

theorem isWord_of_mem_map (h : ∀ token ∈ tokens, IsToken token) :
    ∀ token ∈ tokens.map String.toList, IsWord token := by
  intro token htoken
  obtain ⟨text, htext, rfl⟩ := List.mem_map.mp htoken
  exact (h text htext).1

theorem map_lowercase_tokens (h : ∀ token ∈ tokens, IsToken token) :
    (tokens.map String.toList).map (fun token => String.ofList (lowercase token)) = tokens := by
  rw [List.map_map]
  conv_rhs => rw [← List.map_id tokens]
  exact List.map_congr_left fun token htoken => (h token htoken).2

end Tokens

/-! ## The parts of a line -/

/-- The words of an action. -/
def wordsOfAction (a : Action) : List (List Char) :=
  a.tokens.map String.toList

theorem toList_signature (a : Action) : a.signature.toList = grouped (wordsOfAction a) := by
  cases hargs : a.args with
  | nil => simp [Action.signature, wordsOfAction, Action.tokens, grouped, spaced, hargs]
  | cons arg args =>
    simp [Action.signature, wordsOfAction, Action.tokens, grouped, spaced, hargs,
      String.toList_intercalate]

/-- A time, a colon, a call, and whatever is behind it. -/
def lineOf (time : PlainNumeral) (tokens : List (List Char)) (behind : List Char) : List Char :=
  time.text ++ ':' :: ' ' :: (grouped tokens ++ behind)

namespace IsPrintable

variable {a : Action}

theorem isWord (h : IsPrintable a) : ∀ token ∈ wordsOfAction a, IsWord token :=
  isWord_of_mem_map h.isToken

theorem isSmall (h : IsPrintable a) : ∀ token ∈ wordsOfAction a, ∀ c ∈ token, IsSmall c := by
  intro token htoken
  obtain ⟨text, htext, rfl⟩ := List.mem_map.mp htoken
  exact lowercased_eq_self_iff.mp (h.isToken text htext).2

theorem isSmall_and_ne_colon (h : IsPrintable a) (hcolon : ∀ token ∈ a.tokens, ':' ∉ token.toList) :
    ∀ token ∈ wordsOfAction a, ∀ c ∈ token, IsSmall c ∧ c ≠ ':' := by
  intro token htoken c hc
  refine ⟨h.isSmall token htoken c hc, ?_⟩
  obtain ⟨text, htext, rfl⟩ := List.mem_map.mp htoken
  rintro rfl
  exact hcolon text htext hc

theorem ofList_lowercase_name (h : IsPrintable a) :
    String.ofList (lowercase a.name.toList) = a.name :=
  (h.isToken a.name (by simp [Action.tokens])).2

theorem ofList_lowercase_args (h : IsPrintable a) :
    (a.args.map String.toList).map (fun arg => String.ofList (lowercase arg)) = a.args :=
  map_lowercase_tokens fun arg harg => h.isToken arg (List.mem_cons_of_mem _ harg)

/-- A rule that recognises the words of an action makes the action again. -/
theorem apply_eq_recorded (h : IsPrintable a) (rule : ActionRule) {settings : DurationSettings}
    {position : ℕ} {line : List Char} {time : TimeText} {duration : Float}
    (hscan : rule.shape.scan line = some ⟨time, a.name.toList, a.args.map String.toList⟩)
    (hread : time.read? settings position = some (a.start, duration))
    (hbits : time.startBits settings position = .quiet false) :
    rule.apply settings position line = some (a.recorded (larger duration 0.0) rule.name) := by
  rw [apply_of_scan rule hscan hread, called, hbits, h.ofList_lowercase_name,
    h.ofList_lowercase_args]
  rfl

theorem exists_start_eq (h : IsPrintable a) :
    ∃ time : PlainNumeral, (positional a.start).toList = time.text ∧
      Decimal.float? time.text = some a.start := by
  obtain ⟨time, htime⟩ := exists_positional_eq_text h.isFinite (signOf_of_zero_le h.zero_le)
  exact ⟨time, htime, htime ▸ float?_positional h.isFinite⟩

end IsPrintable

theorem toList_timedText {a : Action} {time : PlainNumeral}
    (htime : (positional a.start).toList = time.text) :
    (timedText a).toList = lineOf time (wordsOfAction a) [] := by
  simp [timedText, lineOf, htime, toList_signature]

theorem toList_lastingText {a : Action} {time : PlainNumeral}
    (htime : (positional a.start).toList = time.text) :
    (lastingText a).toList = lineOf time (wordsOfAction a)
      (' ' :: '[' :: ((positional a.duration).toList ++ [']'])) := by
  simp [lastingText, timedText, lineOf, htime, toList_signature]

theorem lineOf_append (time : PlainNumeral) (tokens : List (List Char)) (behind : List Char) :
    lineOf time tokens [] ++ behind = lineOf time tokens behind := by
  simp [lineOf]

/-! ## Taking a line apart -/

section Scanning

variable {time : PlainNumeral} {tokens : List (List Char)} {behind : List Char}

theorem timeLabel?_lineOf : timeLabel? (lineOf time tokens behind) =
    some (time.text, grouped tokens ++ behind) := by
  have hcolon : ∀ c ∈ (':' :: ' ' :: (grouped tokens ++ behind)).head?,
      Text.isDigit c = false ∧ c ≠ '.' := by
    rintro c ⟨⟩
    decide
  have hgroup : skipBlanks (grouped tokens ++ behind) = grouped tokens ++ behind :=
    skipBlanks_cons (by decide) _
  rw [timeLabel?, lineOf, time.numeral?_text_append hcolon]
  simp [skipBlanks_cons (show isBlank ':' = false by decide), hgroup]

theorem exists_lineOf_eq_cons :
    ∃ c rest, lineOf time tokens behind = c :: rest ∧ c.isDigit = true := by
  obtain ⟨c, rest, htext, hc⟩ := time.exists_text_eq_cons
  exact ⟨c, rest ++ ':' :: ' ' :: (grouped tokens ++ behind), by rw [lineOf, htext]; rfl, hc⟩

theorem scanTimedParen_lineOf {name : List Char} {args : List (List Char)}
    (h : ∀ token ∈ name :: args, IsWord token) :
    scanTimedParen (lineOf time (name :: args) behind) = some ⟨.at time.text, name, args⟩ := by
  simp [scanTimedParen, timeLabel?_lineOf, group?_grouped_append _ h, LineMatch.of?]

theorem scanIndexedParen_lineOf {name : List Char} {args : List (List Char)}
    (h : ∀ token ∈ name :: args, IsWord token) :
    scanIndexedParen (lineOf time (name :: args) behind) =
      some ⟨.step (some time.text), name, args⟩ := by
  have hgroup : group? (lineOf time (name :: args) behind) = none := by
    obtain ⟨c, rest, hline, hc⟩ := @exists_lineOf_eq_cons time (name :: args) behind
    have hne : c ≠ '(' := by
      rintro rfl
      exact absurd hc (by decide)
    rw [hline, group?, exactly?_cons_of_ne hne]
    rfl
  simp [scanIndexedParen, hgroup, timeLabel?_lineOf, group?_grouped_append _ h, LineMatch.of?]

theorem scanBracketDuration_lineOf {name : List Char} {args : List (List Char)}
    (h : ∀ token ∈ name :: args, IsWord token) (duration : PlainNumeral) :
    scanBracketDuration (lineOf time (name :: args) (' ' :: '[' :: (duration.text ++ [']']))) =
      some ⟨.lasting time.text duration.text, name, args⟩ := by
  have hbracket : ∀ c ∈ [']'].head?, Text.isDigit c = false ∧ c ≠ '.' := by
    rintro c ⟨⟩
    decide
  obtain ⟨c, rest, htext, hc⟩ := duration.exists_text_eq_cons
  have hduration : skipBlanks (duration.text ++ [']']) = duration.text ++ [']'] := by
    rw [htext]
    exact skipBlanks_cons (isBlank_of_isDigit hc) _
  simp [scanBracketDuration, timeLabel?_lineOf, group?_grouped_append _ h, bracketed?,
    skipBlanks_cons (show isBlank '[' = false by decide), hduration,
    duration.numeral?_text_append hbracket, skipBlanks_cons (show isBlank ']' = false by decide),
    LineMatch.of?]

end Scanning

/-! ## The characters of a line -/

theorem getLast?_lineOf {time : PlainNumeral} {tokens : List (List Char)} {behind : List Char} :
    (lineOf time tokens behind).getLast? = behind.getLast?.or (some ')') := by
  have hclosing : lineOf time tokens behind =
      (time.text ++ ':' :: ' ' :: '(' :: spaced tokens) ++ ([')'] ++ behind) := by
    simp [lineOf, grouped]
  rw [hclosing, List.getLast?_append_of_ne_nil _ (by simp), List.getLast?_append]
  rfl

theorem mem_lineOf {time : PlainNumeral} {tokens : List (List Char)} {behind : List Char} {c : Char}
    (hc : c ∈ lineOf time tokens behind) :
    c.isDigit = true ∨ c ∈ ['.', ':', ' ', '(', ')'] ∨ (∃ token ∈ tokens, c ∈ token) ∨
      c ∈ behind := by
  rw [lineOf, List.mem_append, List.mem_cons, List.mem_cons, List.mem_append] at hc
  rcases hc with hc | rfl | rfl | hc | hc
  · rcases PlainNumeral.of_mem_text hc with hc | rfl
    · exact .inl hc
    · exact .inr (.inl (by simp))
  · exact .inr (.inl (by simp))
  · exact .inr (.inl (by simp))
  · rcases mem_grouped hc with hc | htoken
    · have hmarks : ['(', ' ', ')'] ⊆ ['.', ':', ' ', '(', ')'] := by decide
      exact .inr (.inl (hmarks hc))
    · exact .inr (.inr (.inl htoken))
  · exact .inr (.inr (.inr hc))

theorem isSmall_of_isDigit {c : Char} (hc : c.isDigit = true) : IsSmall c := by
  have hsmall : decide (IsSmall c) = true :=
    of_isDigit (P := fun d => decide (IsSmall d)) (by decide) hc
  exact of_decide_eq_true hsmall

theorem isSmall_of_mem_lineOf {time : PlainNumeral} {tokens : List (List Char)} {behind : List Char}
    (htokens : ∀ token ∈ tokens, ∀ c ∈ token, IsSmall c) (hbehind : ∀ c ∈ behind, IsSmall c) :
    ∀ c ∈ lineOf time tokens behind, IsSmall c := by
  have hmarks : (['.', ':', ' ', '(', ')'].all fun c => decide (IsSmall c)) = true := by decide
  intro c hc
  rcases mem_lineOf hc with hc | hc | ⟨token, htoken, hc⟩ | hc
  · exact isSmall_of_isDigit hc
  · exact of_decide_eq_true (List.all_eq_true.mp hmarks c hc)
  · exact htokens token htoken c hc
  · exact hbehind c hc

end Transcript

end PlanPlayback
