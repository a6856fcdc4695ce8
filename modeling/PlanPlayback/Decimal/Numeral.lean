import PlanPlayback.Text.Blank

/-!
# Reading numerals

A numeral is a sign, digits with a point anywhere among them, and an exponent; all but one digit
may be missing.  The words `inf`, `infinity` and `nan`, in any case, are numerals too.  Nothing may
stand before or behind the numeral, and only ASCII digits count.

* `Numeral` is what such a text says, before rounding;
* `Numeral.toFloat` rounds it to the nearest floating-point number;
* `float?` and `natural?` read a text.
-/

namespace PlanPlayback.Decimal

/-- The decimal `coefficient · 10 ^ exponent`. -/
structure Numeral where
  coefficient : Nat
  exponent : Int
  deriving Repr, DecidableEq

/-- The value of a run of digits that continues the number `start`. -/
def valueOfDigits (start : Nat) (digits : List Char) : Nat :=
  digits.foldl (fun value digit => 10 * value + (digit.toNat - '0'.toNat)) start

/-- The number nearest to a numeral.  A numeral beyond every floating-point number is an infinity,
and one closer to zero than every other number is zero; those cases are told by the number of
digits alone, so that a long exponent costs nothing. -/
def Numeral.toFloat (n : Numeral) : Float :=
  let lead : Int := (Nat.toDigits 10 n.coefficient).length + n.exponent
  if n.coefficient = 0 then 0.0
  else if 320 < lead then 1.0 / 0.0
  else if lead < -330 then 0.0
  else Float.ofScientific n.coefficient (decide (n.exponent < 0)) n.exponent.natAbs

/-- The exponent that a numeral ends with: nothing, or `e`, a sign and digits. -/
def exponent? : List Char → Option Int
  | [] => some 0
  | mark :: rest =>
      if mark == 'e' || mark == 'E' then
        let (negative, digits) := match rest with
          | '-' :: digits => (true, digits)
          | '+' :: digits => (false, digits)
          | digits => (false, digits)
        if digits.isEmpty || !digits.all Char.isDigit then none
        else
          let size : Int := valueOfDigits 0 digits
          some (if negative then -size else size)
      else none

/-- An unsigned numeral. -/
def numeral? (text : List Char) : Option Numeral :=
  let whole := text.takeWhile Char.isDigit
  let afterWhole := text.dropWhile Char.isDigit
  let (fraction, tail) := match afterWhole with
    | '.' :: rest => (rest.takeWhile Char.isDigit, rest.dropWhile Char.isDigit)
    | rest => ([], rest)
  if whole.isEmpty && fraction.isEmpty then none
  else
    (exponent? tail).map fun e =>
      ⟨valueOfDigits (valueOfDigits 0 whole) fraction, e - fraction.length⟩

/-- An unsigned number: a numeral or one of the words for what is no numeral. -/
def magnitude? (text : List Char) : Option Float :=
  let word := text.map Char.toLower
  if word == ['i', 'n', 'f'] || word == ['i', 'n', 'f', 'i', 'n', 'i', 't', 'y'] then
    some (1.0 / 0.0)
  else if word == ['n', 'a', 'n'] then some (0.0 / 0.0)
  else (numeral? text).map Numeral.toFloat

/-- The number that a text stands for, if it is a numeral. -/
def float? : List Char → Option Float
  | '-' :: rest => (magnitude? rest).map (- ·)
  | '+' :: rest => magnitude? rest
  | text => magnitude? text

/-- The number that a string stands for, if it is a numeral. -/
def floatOf? (text : String) : Option Float :=
  float? text.toList

/-- The natural number below `2 ^ 64` that a run of ASCII digits stands for. -/
def natural? (text : List Char) : Option Nat :=
  if text.isEmpty || !text.all Char.isDigit then none
  else
    let value := valueOfDigits 0 text
    if value < Nat.pow 2 64 then some value else none

end PlanPlayback.Decimal
