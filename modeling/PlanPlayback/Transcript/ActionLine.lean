import PlanPlayback.Decimal.Numeral
import PlanPlayback.Numeric.Key
import PlanPlayback.Plan.Basic
import PlanPlayback.Settings
import PlanPlayback.Text.LetterCase
import PlanPlayback.Text.Scan

/-!
# Action lines

An action stands on a line of its own, in one of seven shapes.

* `t: (name args) [d]`, `[start, end]: name args`, `at t: name args`, `t: name args` and
  `t: (name args)` are temporal;
* `(name args)`, with or without `n:` in front, and `name args`, with or without a cost in
  parentheses behind it, are classical.

A shape is recognised on the text (`ActionShape.scan`), and only then are its numbers read
(`LineMatch.toAction?`): a numeral with digits that are not ASCII fits a shape and has no value, so
the next rule gets its chance.  Names and arguments are mapped to lower case.
-/

namespace PlanPlayback.Transcript

open PlanPlayback.Text

/-- The shapes of action lines. -/
inductive ActionShape where
  | bracketDuration
  | interval
  | atTime
  | timedBare
  | timedParen
  | indexedParen
  | bare
  deriving Repr, DecidableEq

/-- What a line says about time, as text. -/
inductive TimeText where
  | lasting (start duration : List Char)
  | between (start finish : List Char)
  | at (start : List Char)
  | step (start : Option (List Char))
  deriving Repr, DecidableEq

/-- A line of a known shape: its times and its words, of which the first is the name. -/
structure LineMatch where
  time : TimeText
  name : List Char
  args : List (List Char)
  deriving Repr, DecidableEq

/-- A numeral, a colon and the blank space around it: the numeral and what follows. -/
def timeLabel? (text : List Char) : Option (List Char × List Char) := do
  let (time, rest) ← Text.numeral? text
  let rest ← exactly? ':' (skipBlanks rest)
  return (time, skipBlanks rest)

/-- The words of a call that reaches to the end of the text, with or without parentheses around it.
Either parenthesis may be missing. -/
def callToEnd? (text : List Char) : Option (List (List Char)) :=
  let (body, behind) := parenFree (optionally ['('] text)
  let found := words body
  if found.isEmpty || !(skipBlanks (optionally [')'] behind)).isEmpty then none else some found

/-- A line from its times and its words. -/
def LineMatch.of? (time : TimeText) : List (List Char) → Option LineMatch
  | [] => none
  | name :: args => some ⟨time, name, args⟩

/-- A duration in brackets. -/
def bracketed? (text : List Char) : Option (List Char) := do
  let rest ← exactly? '[' text
  let (duration, rest) ← Text.numeral? (skipBlanks rest)
  let _ ← exactly? ']' (skipBlanks rest)
  return duration

/-- `t: (name args) [d]`, with anything behind it. -/
def scanBracketDuration (line : List Char) : Option LineMatch := do
  let (start, rest) ← timeLabel? line
  let (found, rest) ← group? rest
  let duration ← bracketed? (skipBlanks rest)
  LineMatch.of? (.lasting start duration) found

/-- `[start, end]: name args` -/
def scanInterval (line : List Char) : Option LineMatch := do
  let rest ← exactly? '[' line
  let (start, rest) ← Text.numeral? (skipBlanks rest)
  let rest ← exactly? ',' (skipBlanks rest)
  let (finish, rest) ← Text.numeral? (skipBlanks rest)
  let rest ← exactly? ']' (skipBlanks rest)
  let rest ← exactly? ':' (skipBlanks rest)
  let found ← callToEnd? (skipBlanks rest)
  LineMatch.of? (.between start finish) found

/-- `at t: name args` -/
def scanAtTime (line : List Char) : Option LineMatch := do
  let rest ← word? "at" line
  let rest ← someBlanks? rest
  let (start, rest) ← timeLabel? rest
  let found ← callToEnd? rest
  LineMatch.of? (.at start) found

/-- `t: name args`, without parentheses, where the name begins with a letter. -/
def scanTimedBare (line : List Char) : Option LineMatch := do
  let (start, rest) ← timeLabel? line
  if rest.any isParen || !(rest.head?.any isLatinLetter) then none
  else LineMatch.of? (.at start) (words rest)

/-- `t: (name args)`, with anything behind it. -/
def scanTimedParen (line : List Char) : Option LineMatch := do
  let (start, rest) ← timeLabel? line
  let (found, _) ← group? rest
  LineMatch.of? (.at start) found

/-- `(name args)`, with or without `n:` in front, and with anything behind it. -/
def scanIndexedParen (line : List Char) : Option LineMatch :=
  match group? line with
  | some (found, _) => LineMatch.of? (.step none) found
  | none => do
      let (start, rest) ← timeLabel? line
      let (found, _) ← group? rest
      LineMatch.of? (.step (some start)) found

/-- Whether a character may stand in a line without parentheses. -/
def isBareChar (c : Char) : Bool :=
  isWordChar c || c == '-' || isBlank c

/-- Whether a text is nothing, or a cost in parentheses, up to blank space at its end. -/
def isCostSuffix : List Char → Bool
  | [] => true
  | text =>
      (do
        let rest ← exactly? '(' text
        let (_, rest) ← Text.numeral? rest
        let rest ← exactly? ')' rest
        if (skipBlanks rest).isEmpty then some () else none).isSome

/-- `name args` with at least one argument, with or without a cost behind it.  The cost is set off
by blank space. -/
def scanBare (line : List Char) : Option LineMatch :=
  let body := line.takeWhile isBareChar
  let behind := line.dropWhile isBareChar
  let setOff := behind.isEmpty || body.getLast?.any isBlank
  if line.head?.any isLatinLetter && setOff && isCostSuffix behind then
    match words body with
    | name :: arg :: args => some ⟨.step none, name, arg :: args⟩
    | _ => none
  else none

/-- What a line of a shape says, as text. -/
def ActionShape.scan : ActionShape → List Char → Option LineMatch
  | .bracketDuration => scanBracketDuration
  | .interval => scanInterval
  | .atTime => scanAtTime
  | .timedBare => scanTimedBare
  | .timedParen => scanTimedParen
  | .indexedParen => scanIndexedParen
  | .bare => scanBare

/-- A stated duration, where zero and less are replaced. -/
def statedDuration (settings : DurationSettings) (duration : Float) : Float :=
  if duration <= 0.0 then settings.zeroSubstitute else duration

/-- Start and duration of a line.  A classical step without a number starts after as many steps as
there are actions before it. -/
def TimeText.read? (settings : DurationSettings) (position : Nat) :
    TimeText → Option (Float × Float)
  | .lasting start duration => do
      let d ← Decimal.float? duration
      let t ← Decimal.float? start
      return (t, statedDuration settings d)
  | .between start finish => do
      let t ← Decimal.float? start
      let u ← Decimal.float? finish
      return (t, statedDuration settings (u - t))
  | .at start => (Decimal.float? start).map fun t => (t, settings.unstated)
  | .step (some start) => (Decimal.float? start).map fun t => (t, settings.classicalStep)
  | .step none => some (Float.ofNat position * settings.classicalStep, settings.classicalStep)

/-- The bits of the start of a step without a number, if this start is no number: that is so if the
duration of a step is no number, or for the product of zero and an infinity. -/
def stepBits (settings : DurationSettings) (position : Nat) : NaNBits :=
  if settings.classicalStep.isNaN then settings.stepBits.quieted
  else if position == 0 && settings.classicalStep.isInf then .indefinite
  else .quiet false

/-- The bits of the start of a line, if this start is no number.  No numeral stands for such a
value. -/
def TimeText.startBits (settings : DurationSettings) (position : Nat) : TimeText → NaNBits
  | .step none => stepBits settings position
  | _ => .quiet false

/-- The action of a line, if its numbers can be read. -/
def LineMatch.toAction? (settings : DurationSettings) (position : Nat) (found : LineMatch) :
    Option Action :=
  (found.time.read? settings position).map fun (start, duration) =>
    { Action.make (String.ofList (lowercase found.name))
        (found.args.map fun arg => String.ofList (lowercase arg)) start duration with
      startBits := found.time.startBits settings position }

/-- A shape with the name under which it is recorded. -/
structure ActionRule where
  name : String
  shape : ActionShape
  deriving Repr, DecidableEq

namespace ActionRule

/-- Whether a line has the shape of a rule. -/
def fits (rule : ActionRule) (line : List Char) : Bool :=
  (rule.shape.scan line).isSome

/-- The action that a rule reads from a line. -/
def apply (rule : ActionRule) (settings : DurationSettings) (position : Nat) (line : List Char) :
    Option Action :=
  ((rule.shape.scan line).bind fun found => found.toAction? settings position).map fun action =>
    { action with rule := some rule.name }

end ActionRule

/-- The classical rules, in the order in which they are tried. -/
def classicalRules : List ActionRule :=
  [⟨"indexed-paren", .indexedParen⟩, ⟨"bare", .bare⟩]

/-- The temporal rules, in the order in which they are tried. -/
def temporalRules : List ActionRule :=
  [⟨"bracket-duration", .bracketDuration⟩, ⟨"interval", .interval⟩, ⟨"at-time", .atTime⟩,
    ⟨"timed-bare", .timedBare⟩, ⟨"timed-paren", .timedParen⟩]

/-! ## Numeric effects on a line -/

/-- A numeric effect at the beginning of a text: an update, a fluent in parentheses and a number.
The keyword is compared without regard to case, but only its spelling in lower case counts as an
update, and only a number that can be read counts as an amount. -/
def scanEffect (before : Option Char) (text : List Char) : Option (Option PlannedEffect) :=
  if !atWordStart before text then none
  else
    ["increase", "decrease", "assign"].findSome? fun keyword => do
      let rest ← word? keyword text
      let (found, rest) ← group? (skipBlanks rest)
      let (amount, _) ← signedNumeral? (skipBlanks rest)
      let spelled := String.ofList (lowercase (text.take keyword.length))
      return (do
        let update ← Update.ofKeyword? spelled
        let value ← Decimal.float? amount
        match found with
        | [] => none
        | name :: args =>
            some ⟨groundKey (String.ofList (lowercase name))
              (args.map fun arg => String.ofList (lowercase arg)), update, value⟩)

/-- The numeric effects on a line, from left to right. -/
def inlineEffects (line : List Char) : List PlannedEffect :=
  (everywhere scanEffect none line).filterMap id

/-! ## The rules of a dialect -/

/-- The first of several rules that reads an action from a line. -/
def firstApplying (rules : List ActionRule) (settings : DurationSettings) (position : Nat)
    (line : List Char) : Option Action :=
  rules.findSome? fun rule => rule.apply settings position line

/-- The action on a classical line. -/
def classicalLine (settings : DurationSettings) (position : Nat) (line : List Char) :
    Option Action :=
  firstApplying classicalRules settings position line

/-- The action on a temporal line; a line of no temporal shape may be classical. -/
def temporalLine (settings : DurationSettings) (position : Nat) (line : List Char) :
    Option Action :=
  (firstApplying temporalRules settings position line).or (classicalLine settings position line)

/-- The action on a temporal line with the numeric effects next to it. -/
def numericLine (settings : DurationSettings) (position : Nat) (line : List Char) :
    Option Action :=
  (temporalLine settings position line).map fun action =>
    { action with effects := inlineEffects line }

/-- The action on a line of a transcript in a dialect, where `position` actions come before it. -/
def actionOnLine (dialect : Dialect) (settings : DurationSettings) (position : Nat)
    (line : List Char) : Option Action :=
  match dialect with
  | .classical => classicalLine settings position line
  | .temporal | .metricTemporal | .pddlPlus => temporalLine settings position line
  | .numeric => numericLine settings position line

end PlanPlayback.Transcript
