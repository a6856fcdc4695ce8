import PlanPlayback.Decimal.Fixed

/-!
# Quantities for the reader

The console shows counts with a comma between thousands, whole numbers like counts, other numbers
with three places, and times in seconds or, from a minute on, in minutes and seconds.
-/

namespace PlanPlayback.Console

/-- Digits from the last to the first, with a comma after every third one that is not the first of
the number. -/
def groupDigits : List Char → List Char
  | a :: b :: c :: d :: rest => a :: b :: c :: ',' :: groupDigits (d :: rest)
  | short => short

/-- A natural number with a comma between thousands. -/
def grouped (n : Nat) : String :=
  String.ofList (groupDigits (Nat.toDigits 10 n).reverse).reverse

/-- The size of a number, if it is whole and less than `10 ^ 15`. -/
def wholeSize? (significand : Nat) (exponent : Int) : Option Nat :=
  let (m, n) := Decimal.ratio significand exponent 0
  if m % n = 0 ∧ m / n < Nat.pow 10 15 then some (m / n) else none

/-- A whole number like a count, any other number with three places.  Numbers from `10 ^ 15` on are
not grouped. -/
def figure (x : Float) : String :=
  match Decimal.decode x with
  | .finite ⟨negative, significand, exponent⟩ =>
      match wholeSize? significand exponent with
      | some size => (if negative && size != 0 then "-" else "") ++ grouped size
      | none => Decimal.fixed 3 x
  | _ => Decimal.fixed 3 x

/-- A time: `1.500s`, `2m 5.2s`.  The seconds are rounded after the minutes are taken off, so they
can be shown as sixty. -/
def timeText (seconds : Float) : String :=
  if seconds < 60.0 then Decimal.fixed 3 seconds ++ "s"
  else
    let minutes := (seconds / 60.0).floor
    Decimal.positional minutes ++ "m " ++ Decimal.fixed 1 (seconds - minutes * 60.0) ++ "s"

end PlanPlayback.Console
