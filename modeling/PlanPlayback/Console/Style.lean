/-!
# Coloured text

Terminals change the look of a text at escape sequences.  A style puts one sequence in front of a
text and one behind it that ends what the first began, so that styles can be nested.
-/

namespace PlanPlayback.Console

/-- The colours of the console. -/
inductive Colour where
  | red
  | green
  | yellow
  | cyan
  | white
  | grey
  | brightRed
  | brightGreen
  | brightYellow
  | brightBlue
  | brightMagenta
  | brightCyan
  deriving Repr, DecidableEq

/-- The number that selects a colour. -/
def Colour.code : Colour → Nat
  | red => 31
  | green => 32
  | yellow => 33
  | cyan => 36
  | white => 37
  | grey => 90
  | brightRed => 91
  | brightGreen => 92
  | brightYellow => 93
  | brightBlue => 94
  | brightMagenta => 95
  | brightCyan => 96

/-- The escape sequence of a number. -/
def escape (code : Nat) : String :=
  "\x1b[" ++ toString code ++ "m"

/-- A text in a colour; the default colour follows. -/
def coloured (colour : Colour) (text : String) : String :=
  escape colour.code ++ text ++ escape 39

/-- A bold text; all styles end with it. -/
def bold (text : String) : String :=
  escape 1 ++ text ++ escape 0

/-- A dimmed text; all styles end with it. -/
def dimmed (text : String) : String :=
  escape 2 ++ text ++ escape 0

end PlanPlayback.Console
