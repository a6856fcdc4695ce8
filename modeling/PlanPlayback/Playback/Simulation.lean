import PlanPlayback.Decimal.Fixed
import PlanPlayback.Playback.Player

/-!
# Simulation

A plan is simulated by letting intervals of one length pass, one after the other, until the clock no
longer runs.  A step that does not move a running clock will not move it later either, so such a
simulation has no end.

* `nanosecondsOf?` is the interval of a number of seconds;
* `Player.playOut?` are the moments of a simulation, if it ends.  The clock only takes each value
  once, and there are finitely many floating-point numbers; the recursion is on the values that are
  left.
-/

namespace PlanPlayback

/-- The interval of a number of seconds, to the nearest nanosecond; a half goes to the even
neighbour.  Negative numbers, and intervals of `2 ^ 64` seconds or more, have none. -/
def nanosecondsOf? (seconds : Float) : Option Nat :=
  match Decimal.decode seconds with
  | .finite ⟨negative, significand, exponent⟩ =>
      let (m, n) := Decimal.ratio (significand * Nat.pow 10 9) exponent 0
      let interval := Decimal.roundedQuotient m n
      if (negative && significand != 0) || Nat.pow 2 64 * Nat.pow 10 9 ≤ interval then none
      else some interval
  | _ => none

/-- A moment of a simulation: what is shown, and what has happened since the moment before. -/
structure Moment where
  frame : Frame
  notices : List Notice
  deriving Repr

/-- The moments of a simulation from a player on, after those that have been; none if the
simulation has no end. -/
def Player.playOut? (nanoseconds : Nat) (p : Player) (past : List Moment) :
    Option (List Moment) :=
  if p.clock.state ≠ .playing then some past.reverse
  else
    let (next, notices) := p.advance nanoseconds
    let past := ⟨next.frame, notices⟩ :: past
    if next.clock.state ≠ .playing then some past.reverse
    else if _h : p.clock.time.toBits < next.clock.time.toBits then
      next.playOut? nanoseconds past
    else none
termination_by Nat.pow 2 64 - p.clock.time.toBits.toNat
decreasing_by
  exact Nat.sub_lt_sub_left (UInt64.toNat_lt _) (UInt64.lt_iff_toNat_lt.mp _h)

end PlanPlayback
