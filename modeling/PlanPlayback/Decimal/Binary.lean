/-!
# Floating-point numbers as exact binary fractions

A finite floating-point number is a sign, a significand and a power of two.  The printers of this
library work on those parts, in exact natural arithmetic, and never on rounded values.

* `Decoded` is what the bits of a number say: not a number, an infinity, or a `Binary`;
* `ratio` writes `significand · 2 ^ exponent`, measured in units of a power of ten, as a quotient
  of two natural numbers;
* `digitCount` and `leadingExponent` locate a number between two powers of ten.
-/

namespace PlanPlayback.Decimal

/-- The number `± significand · 2 ^ exponent`. -/
structure Binary where
  negative : Bool
  significand : Nat
  exponent : Int
  deriving Repr, DecidableEq

/-- What the bits of a floating-point number say. -/
inductive Decoded where
  | notANumber
  | infinite (negative : Bool)
  | finite (value : Binary)
  deriving Repr, DecidableEq

/-- Reads sign, exponent and significand from the bits of a number.  The exponent field `0` marks
the numbers without a hidden bit, the field `2047` the infinities and what is no number. -/
def decode (x : Float) : Decoded :=
  let bits : Nat := x.toBits.toNat
  let negative : Bool := Nat.pow 2 63 ≤ bits
  let field : Nat := bits / Nat.pow 2 52 % Nat.pow 2 11
  let fraction : Nat := bits % Nat.pow 2 52
  if field = 2047 then
    if fraction = 0 then .infinite negative else .notANumber
  else if field = 0 then .finite ⟨negative, fraction, -1074⟩
  else .finite ⟨negative, fraction + Nat.pow 2 52, (field : Int) - 1075⟩

/-- Numerator and denominator of `significand · 2 ^ exponent / 10 ^ unit`. -/
def ratio (significand : Nat) (exponent unit : Int) : Nat × Nat :=
  (significand * Nat.pow 2 exponent.toNat * Nat.pow 10 (-unit).toNat,
    Nat.pow 2 (-exponent).toNat * Nat.pow 10 unit.toNat)

/-- The number of decimal digits of a natural number. -/
def digitCount (n : Nat) : Nat :=
  (Nat.toDigits 10 n).length

/-- The exponent `e` with `10 ^ (e - 1) ≤ m / n < 10 ^ e`, for positive `m` and `n`. -/
def leadingExponent (m n : Nat) : Int :=
  if n ≤ m then digitCount (m / n)
  else
    let count := digitCount (n / m)
    if m * Nat.pow 10 (count - 1) = n then 2 - count else 1 - count

end PlanPlayback.Decimal
