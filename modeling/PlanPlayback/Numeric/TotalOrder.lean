/-!
# The total order of floating-point numbers

Every floating-point value has a place in the total order: the two zeros are told apart, and what is
no number comes before all numbers if it has a minus sign and behind all of them otherwise.  The
place of a value is found from its 64 bits (`totalKey`).

A `Float` keeps the bits of numbers only.  There is one `Float` that is no number, while on a
machine such a value has a sign and a payload, and both count in the total order.  `NaNBits` are
the bits that stand beside a `Float` where its place may be asked for.
-/

namespace PlanPlayback

/-- The place of a value in the total order, from its bits.  Among the values with a minus sign the
larger bits come first. -/
def totalKey (bits : Nat) : Int :=
  if bits < Nat.pow 2 63 then bits else -((bits - Nat.pow 2 63 : Nat) : Int) - 1

/-- The place of a number in the total order. -/
def orderKey (x : Float) : Int :=
  totalKey x.toBits.toNat

/-- The bits of a value that is no number: its sign and its payload, which is not zero. -/
structure NaNBits where
  minus : Bool
  payload : Nat
  payload_pos : 0 < payload := by decide
  payload_lt : payload < Nat.pow 2 52 := by decide
  deriving Repr, DecidableEq

namespace NaNBits

/-- The usual value with a sign that is no number: the first bit of its payload alone is set. -/
def quiet (minus : Bool) : NaNBits :=
  { minus, payload := Nat.pow 2 51 }

instance : Inhabited NaNBits :=
  ⟨quiet false⟩

/-- All 64 bits: the sign, the largest exponent and the payload. -/
def code (b : NaNBits) : Nat :=
  (if b.minus then Nat.pow 2 63 else 0) + (2047 * Nat.pow 2 52 + b.payload)

/-- What arithmetic makes of a value that is no number: the first bit of its payload is set. -/
def quieted (b : NaNBits) : NaNBits :=
  { b with
    payload := b.payload ||| Nat.pow 2 51
    payload_pos := Nat.lt_of_lt_of_le b.payload_pos Nat.left_le_or
    payload_lt := Nat.or_lt_two_pow b.payload_lt (by decide) }

/-- What arithmetic makes of operands that have no result, such as zero times infinity. -/
def indefinite : NaNBits :=
  quiet true

end NaNBits

end PlanPlayback
