import PlanPlayback.Dialect
import PlanPlayback.Text.LetterCase
import PlanPlayback.Text.Scan

/-!
# The dialect of a transcript

The dialect of a transcript is told from cues in its text, in lower case.  The rules are tried in
the order of their priorities, and the first that applies decides; a transcript without cues is
classical, even if its lines carry times.

* words of processes, events and rates point to PDDL+;
* words of numeric effects, or a sign and a digit behind a parenthesis, point to a numeric plan;
* a temporal plan needs both a word of durations and a line of a shape that only temporal planners
  print: an action with a duration in brackets, an interval, or `at` and a time.
-/

namespace PlanPlayback.Transcript

open PlanPlayback.Text

/-- Whether one of several texts begins here, where a word begins. -/
def wordBegins (starts : List String) (before : Option Char) (text : List Char) : Bool :=
  atWordStart before text && starts.any fun start => (afterPrefix? start.toList text).isSome

/-- Whether exactly the given word, or words, stand here. -/
def isWholeWord (word : String) (before : Option Char) (text : List Char) : Bool :=
  atWordStart before text &&
    (afterPrefix? word.toList text).any fun rest => !startsWithWordChar rest

/-- Whether a cue occurs anywhere in a text. -/
def occurs (cue : Option Char → List Char → Bool) (text : List Char) : Bool :=
  (anywhere? (fun before rest => if cue before rest then some () else none) none text).isSome

/-- A cue of processes and events. -/
def pddlPlusCue (before : Option Char) (text : List Char) : Bool :=
  wordBegins ["process", "event", "continuous", "rate", "concurrent"] before text

/-- Whether a word of numeric effects stands here, with an opening parenthesis behind it. -/
def effectOpens (before : Option Char) (text : List Char) : Bool :=
  atWordStart before text &&
    ["increase", "decrease", "assign"].any fun word =>
      ((afterPrefix? word.toList text).bind fun rest => exactly? '(' (skipBlanks rest)).isSome

/-- Whether a closing parenthesis stands here, and a sign and a digit behind it. -/
def signedNumberFollows (text : List Char) : Bool :=
  match (exactly? ')' text).bind someBlanks? with
  | some (sign :: digit :: _) => (sign == '+' || sign == '-') && isDigit digit
  | _ => false

/-- A cue of numeric effects. -/
def numericCue (before : Option Char) (text : List Char) : Bool :=
  isWholeWord "numeric" before text || effectOpens before text ||
    isWholeWord "scale-up" before text || isWholeWord "scale-down" before text ||
    signedNumberFollows text

/-- A word of durations or the name of a temporal planner. -/
def durativeCue (before : Option Char) (text : List Char) : Bool :=
  ["durative", "duration", "makespan", "temporal"].any
      (fun word => (afterPrefix? word.toList text).isSome) ||
    ["at start", "at end", "over all", "optic", "tfd"].any
      (fun word => isWholeWord word before text) ||
    wordBegins ["lpg", "popf"] before text

/-- Passes over a number and the blank space around it. -/
def spacedNumeral? (text : List Char) : Option (List Char) :=
  (numeral? (skipBlanks text)).map fun found => skipBlanks found.2

/-- Whether a text begins with a number, a colon, an action and a duration in brackets. -/
def bracketShape (text : List Char) : Bool :=
  (do
    let (_, rest) ← numeral? text
    let rest ← exactly? ':' (skipBlanks rest)
    let rest ← exactly? '(' (skipBlanks rest)
    let rest ← exactly? ')' (parenFree rest).2
    let rest ← exactly? '[' (skipBlanks rest)
    let rest ← spacedNumeral? rest
    exactly? ']' rest).isSome

/-- Whether a text begins with an interval and a colon. -/
def intervalShape (text : List Char) : Bool :=
  (do
    let rest ← exactly? '[' text
    let rest ← spacedNumeral? rest
    let rest ← exactly? ',' rest
    let rest ← spacedNumeral? rest
    let rest ← exactly? ']' rest
    exactly? ':' (skipBlanks rest)).isSome

/-- Whether a text begins with `at`, a number and a colon. -/
def atShape (text : List Char) : Bool :=
  (do
    let rest ← afterPrefix? ['a', 't'] text
    let rest ← someBlanks? rest
    let (_, rest) ← numeral? rest
    exactly? ':' (skipBlanks rest)).isSome

/-- Whether a line of a shape begins here that only temporal planners print. -/
def durativeShape (before : Option Char) (text : List Char) : Bool :=
  (atLineStart
    (fun line =>
      let body := skipBlanks line
      if bracketShape body || intervalShape body || atShape body then some () else none)
    before text).isSome

/-- A rule that tells a dialect from a text in lower case. -/
structure DialectRule where
  name : String
  priority : Nat
  dialect : Dialect
  applies : List Char → Bool

/-- The rules in the order of their priorities. -/
def dialectRules : List DialectRule :=
  [⟨"pddl-plus", 10, .pddlPlus, occurs pddlPlusCue⟩,
    ⟨"numeric", 20, .numeric, occurs numericCue⟩,
    ⟨"temporal", 30, .temporal, fun text => occurs durativeCue text && occurs durativeShape text⟩]

/-- A dialect with the name of the rule that decided it. -/
structure Detection where
  dialect : Dialect
  rule : String
  deriving Repr, DecidableEq

/-- The dialect of a transcript. -/
def detect (text : String) : Detection :=
  let small := lowercase text.toList
  match dialectRules.find? fun rule => rule.applies small with
  | some rule => ⟨rule.dialect, rule.name⟩
  | none => ⟨.classical, "classical-default"⟩

end PlanPlayback.Transcript
