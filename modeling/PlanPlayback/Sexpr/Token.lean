import PlanPlayback.Text.Blank

/-!
# Tokens

The texts of planning domains are made of parentheses and atoms.  Blank space separates atoms and
means nothing else, and a parenthesis needs no blank space around it: `tokenize` sets every
parenthesis apart and reads the words of the result.

A semicolon starts a comment that reaches to the end of its line.  `withoutComments` drops the
comments and keeps the line structure.
-/

namespace PlanPlayback

/-- A parenthesis or an atom. -/
inductive Token where
  | opening
  | closing
  | atom (text : String)
  deriving Repr, DecidableEq

namespace Token

/-- The token that a word stands for, once parentheses stand alone. -/
def ofWord (word : List Char) : Token :=
  if word = ['('] then .opening
  else if word = [')'] then .closing
  else .atom (String.ofList word)

/-- A text with blank space on both sides of every parenthesis. -/
def setApart (text : List Char) : List Char :=
  text.flatMap fun c => if c = '(' ∨ c = ')' then [' ', c, ' '] else [c]

/-- The tokens of a text, in order. -/
def tokenize (text : String) : List Token :=
  (Text.words (setApart text.toList)).map ofWord

/-- The written form of a token. -/
def render : Token → String
  | .opening => "("
  | .closing => ")"
  | .atom text => text

end Token

/-- A text without its comments; its lines are joined by line feeds. -/
def withoutComments (text : String) : String :=
  String.ofList
    (['\n'].intercalate ((Text.lines text.toList).map fun line => line.takeWhile (· != ';')))

end PlanPlayback
