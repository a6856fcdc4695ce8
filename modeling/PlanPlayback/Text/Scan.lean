import PlanPlayback.Text.Blank
import PlanPlayback.Text.CharClass

/-!
# Scanning

The lines of a planner transcript are taken apart from left to right.  A scanner either refuses a
text or returns what stands behind the part that it takes.  Parts are taken as long as possible:
the classes of characters that follow each other in a line have no member in common, so a shorter
part would never let the rest of a line fit.

* `skipBlanks`, `exactly?`, `word?`: blank space, a character, a word without regard to case;
* `numeral?`: digits with an optional fraction, as text;
* `parenFree`: everything up to the next parenthesis;
* `anywhere?`: the first place of a text where a scanner succeeds.

A scanner that has to look behind it is given the character in front of the text.
-/

namespace PlanPlayback.Text

/-- A text without the blank space it begins with. -/
def skipBlanks (text : List Char) : List Char :=
  text.dropWhile isBlank

/-- Passes over at least one blank character. -/
def someBlanks? : List Char → Option (List Char)
  | c :: rest => if isBlank c then some (skipBlanks rest) else none
  | [] => none

/-- Passes over a given character. -/
def exactly? (wanted : Char) : List Char → Option (List Char)
  | c :: rest => if c == wanted then some rest else none
  | [] => none

/-- Passes over one of several characters, if one of them is there. -/
def optionally (wanted : List Char) : List Char → List Char
  | c :: rest => if wanted.contains c then rest else c :: rest
  | [] => []

/-- Passes over a word, given in lower case, without regard to case. -/
def wordChars? : List Char → List Char → Option (List Char)
  | [], text => some text
  | _ :: _, [] => none
  | w :: word, c :: text => if matchesIgnoringCase w c then wordChars? word text else none

/-- Passes over a word, given in lower case, without regard to case. -/
def word? (word : String) (text : List Char) : Option (List Char) :=
  wordChars? word.toList text

/-- The digits that a text begins with, at least one, and what follows them. -/
def digits? (text : List Char) : Option (List Char × List Char) :=
  let digits := text.takeWhile isDigit
  if digits.isEmpty then none else some (digits, text.dropWhile isDigit)

/-- Digits with an optional fraction, and what follows them.  A point without a digit behind it
does not belong to the numeral. -/
def numeral? (text : List Char) : Option (List Char × List Char) :=
  (digits? text).map fun (whole, rest) =>
    match rest with
    | '.' :: behind =>
        match digits? behind with
        | some (fraction, others) => (whole ++ '.' :: fraction, others)
        | none => (whole, rest)
    | _ => (whole, rest)

/-- A numeral with an optional minus sign, and what follows it. -/
def signedNumeral? : List Char → Option (List Char × List Char)
  | '-' :: text => (numeral? text).map fun (digits, rest) => ('-' :: digits, rest)
  | text => numeral? text

/-- Whether a character is a parenthesis. -/
def isParen (c : Char) : Bool :=
  c == '(' || c == ')'

/-- Everything up to the next parenthesis, and what follows. -/
def parenFree (text : List Char) : List Char × List Char :=
  (text.takeWhile fun c => !isParen c, text.dropWhile fun c => !isParen c)

/-- The words between an opening and the next closing parenthesis, at least one and with no
parenthesis among them, and what follows. -/
def group? (text : List Char) : Option (List (List Char) × List Char) := do
  let inside ← exactly? '(' text
  let (body, behind) := parenFree inside
  let rest ← exactly? ')' behind
  let found := words body
  if found.isEmpty then none else some (found, rest)

/-- Whether a text begins with a character that is part of a word. -/
def startsWithWordChar : List Char → Bool
  | c :: _ => isWordChar c
  | [] => false

/-- Whether a text is the beginning of a word, given the character in front of it. -/
def atWordStart (before : Option Char) (text : List Char) : Bool :=
  startsWithWordChar text && !(before.any isWordChar)

/-- What a scanner finds at the first place of a text where it finds something.  The scanner is
given the character in front of the place. -/
def anywhere? {α : Type} (scanner : Option Char → List Char → Option α) (before : Option Char) :
    List Char → Option α
  | [] => scanner before []
  | c :: rest =>
      match scanner before (c :: rest) with
      | some found => some found
      | none => anywhere? scanner (some c) rest

/-- What a scanner finds at all places of a text, from left to right. -/
def everywhere {α : Type} (scanner : Option Char → List Char → Option α) (before : Option Char) :
    List Char → List α
  | [] => (scanner before []).toList
  | c :: rest => (scanner before (c :: rest)).toList ++ everywhere scanner (some c) rest

/-- A scanner at the beginnings of lines. -/
def atLineStart {α : Type} (scanner : List Char → Option α) (before : Option Char)
    (text : List Char) : Option α :=
  match before with
  | none => scanner text
  | some c => if c == '\n' then scanner text else none

end PlanPlayback.Text
