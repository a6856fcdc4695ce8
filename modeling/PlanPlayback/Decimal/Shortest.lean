import PlanPlayback.Decimal.Binary

/-!
# Shortest decimals

The decimal text of a floating-point number has the fewest digits that read back as that number.
Among the decimals with so few digits the nearest is taken; which of two equally near ones is for
the notation to say.

## Main definitions

* `Scaled`, a decimal: a coefficient and a power of ten;
* `Tie`, which of two equally near decimals a notation takes;
* `candidate?`, the decimal on the grid `10 ^ unit · ℕ` that reads back, if there is one;
* `shortest`, the first candidate on the grids of 1, 2, …, 17 digits;
* `positional`, digits and point without an exponent: `5`, `0.1`, `-0`, `NaN`, `inf`;
* `exponential?`, the form of numbers in JSON documents: `5.0`, `1e21`, `1.5e-7`.
-/

namespace PlanPlayback.Decimal

/-- The decimal `coefficient · 10 ^ exponent`. -/
structure Scaled where
  coefficient : Nat
  exponent : Int
  deriving Repr, DecidableEq

namespace Scaled

/-- The digits of the coefficient. -/
def digits (d : Scaled) : List Char :=
  Nat.toDigits 10 d.coefficient

/-- A decimal whose coefficient ends in a zero, with that zero in the exponent. -/
def dropZero (d : Scaled) : Scaled :=
  if d.coefficient % 10 = 0 then ⟨d.coefficient / 10, d.exponent + 1⟩ else d

/-- Digits and point of a decimal, without an exponent. -/
def plain (d : Scaled) : List Char :=
  let digits := d.digits
  if 0 ≤ d.exponent then digits ++ List.replicate d.exponent.toNat '0'
  else
    let places := (-d.exponent).toNat
    if places < digits.length then
      digits.take (digits.length - places) ++ '.' :: digits.drop (digits.length - places)
    else '0' :: '.' :: (List.replicate (places - digits.length) '0' ++ digits)

end Scaled

/-- Which of two equally near coefficients is taken: the larger one, or the even one. -/
inductive Tie where
  | up
  | even
  deriving Repr, DecidableEq

/-- The choice between the coefficients `down` and `down + 1` when `value / one` lies between
them. -/
def Tie.nearer (tie : Tie) (down value one : Nat) : Nat :=
  let middle := (2 * down + 1) * one
  if 2 * value < middle then down
  else if middle < 2 * value then down + 1
  else
    match tie with
    | .up => down + 1
    | .even => if down % 2 = 0 then down else down + 1

/-- The neighbours of `significand · 2 ^ exponent` on the grid of multiples of `10 ^ unit` are
tested against the interval of reals that round to it; the ends of the interval belong to it when
the significand is even.  Of two neighbours inside, the nearer is taken. -/
def candidate? (tie : Tie) (significand : Nat) (exponent unit : Int) : Option Nat :=
  let below := if significand = Nat.pow 2 52 ∧ -1074 < exponent then 1 else 2
  let (value, one) := ratio (4 * significand) (exponent - 2) unit
  let (least, _) := ratio (4 * significand - below) (exponent - 2) unit
  let (greatest, _) := ratio (4 * significand + 2) (exponent - 2) unit
  let readsBack := fun c : Nat =>
    if significand % 2 = 0 then least ≤ c * one && c * one ≤ greatest
    else least < c * one && c * one < greatest
  let down := value / one
  if readsBack down then
    some (if readsBack (down + 1) then tie.nearer down value one else down)
  else if readsBack (down + 1) then some (down + 1)
  else none

/-- The grids are tried from coarse to fine, and the first that has a candidate decides. -/
def shortest (tie : Tie) (significand : Nat) (exponent : Int) : Scaled :=
  if significand = 0 then ⟨0, 0⟩
  else
    let (m, n) := ratio significand exponent 0
    let lead := leadingExponent m n
    let found := (List.range 17).findSome? fun (k : Nat) =>
      (candidate? tie significand exponent (lead - 1 - k)).map fun c => (⟨c, lead - 1 - k⟩ : Scaled)
    (found.getD ⟨m, 0⟩).dropZero

/-- The sign of a number as text. -/
def signText (negative : Bool) : List Char :=
  if negative then ['-'] else []

/-- The shortest decimal of a number, without an exponent and without a point where there is
nothing behind it.  Zero keeps its sign. -/
def positional (x : Float) : String :=
  match decode x with
  | .notANumber => "NaN"
  | .infinite negative => String.ofList (signText negative ++ ['i', 'n', 'f'])
  | .finite ⟨negative, significand, exponent⟩ =>
      String.ofList (signText negative ++ (shortest .up significand exponent).plain)

/-- The shortest decimal of a number with a point or an exponent in it: a number from `10 ^ -5` up
to `10 ^ 16` has a point and at least one digit behind it, any other an exponent.  There is no
text for the infinities and for what is no number. -/
def exponential? (x : Float) : Option String :=
  match decode x with
  | .notANumber => none
  | .infinite _ => none
  | .finite ⟨negative, significand, exponent⟩ =>
      let d := shortest .even significand exponent
      let digits := d.digits
      let lead : Int := digits.length + d.exponent
      let body :=
        if significand = 0 then ['0', '.', '0']
        else if -5 < lead ∧ lead ≤ 16 then
          if 0 ≤ d.exponent then d.plain ++ ['.', '0'] else d.plain
        else
          let fraction := digits.drop 1
          digits.take 1 ++ (if fraction.isEmpty then [] else '.' :: fraction) ++
            'e' :: (toString (lead - 1)).toList
      some (String.ofList (signText negative ++ body))

end PlanPlayback.Decimal
