import PlanPlayback.Decimal.Shortest

/-!
# Decimals with a fixed number of places

A number is rounded to a given number of decimal places by its exact value, and a half goes to the
even neighbour.  Zero keeps its sign, also when it is the result of rounding.

* `roundedQuotient` rounds a quotient of natural numbers;
* `fixed` is the text of a number with a given number of places.
-/

namespace PlanPlayback.Decimal

/-- The natural number nearest to `m / n`, the even one of two that are equally near. -/
def roundedQuotient (m n : Nat) : Nat :=
  let down := m / n
  let twice := 2 * (m % n)
  if twice < n then down
  else if n < twice then down + 1
  else if down % 2 = 0 then down else down + 1

/-- The decimal text of `count · 10 ^ -places`, with exactly that many places. -/
def withPlaces (count places : Nat) : List Char :=
  let digits := Nat.toDigits 10 count
  let padded := List.replicate (places + 1 - digits.length) '0' ++ digits
  if places = 0 then padded
  else padded.take (padded.length - places) ++ '.' :: padded.drop (padded.length - places)

/-- A number with a fixed number of decimal places: `2.500`, `-0.000`, `NaN`, `inf`. -/
def fixed (places : Nat) (x : Float) : String :=
  match decode x with
  | .notANumber => "NaN"
  | .infinite negative => String.ofList (signText negative ++ ['i', 'n', 'f'])
  | .finite ⟨negative, significand, exponent⟩ =>
      let (m, n) := ratio significand exponent (-places)
      String.ofList (signText negative ++ withPlaces (roundedQuotient m n) places)

end PlanPlayback.Decimal
