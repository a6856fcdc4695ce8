import PlanPlayback.Text.LetterCase
import PlanPlayback.Text.Blank

/-!
# Numeric fluents

A fluent is a named number that changes while a plan runs, such as the charge of a battery.  It
remembers its initial value, and it may be confined to a range: every write goes through `set`,
which moves the number into the range.

* `FluentKind`, the coarse category of a fluent, is told from its name;
* `larger` and `smaller` choose between two numbers and prefer any number to what is no number;
* `Fluent.clamp`, `set`, `add` and `reset` are the writes.
-/

namespace PlanPlayback

/-- The larger of two numbers.  What is no number loses against any number, and of two equal
numbers the first is taken. -/
def larger (first second : Float) : Float :=
  if first.isNaN then second else if first < second then second else first

/-- The smaller of two numbers.  What is no number loses against any number, and of two equal
numbers the first is taken. -/
def smaller (first second : Float) : Float :=
  if first.isNaN then second else if second < first then second else first

/-- The coarse category of a fluent. -/
inductive FluentKind where
  | battery
  | fuel
  | capacity
  | generic
  deriving Repr, DecidableEq

namespace FluentKind

/-- The category that a name suggests.  Only the letters A to Z are read without regard to case. -/
def ofName (name : String) : FluentKind :=
  let small := Text.asciiLowercased name
  if ["battery", "energy", "charge"].any (Text.contains small) then .battery
  else if Text.contains small "fuel" then .fuel
  else if ["capacity", "load"].any (Text.contains small) then .capacity
  else .generic

/-- The unit in which a category is measured, if it has a natural one. -/
def unit? : FluentKind → Option String
  | battery => some "%"
  | fuel => some "L"
  | capacity | generic => none

/-- The name of a category in machine-readable output. -/
def tag : FluentKind → String
  | battery => "battery"
  | fuel => "fuel"
  | capacity => "capacity"
  | generic => "generic"

end FluentKind

/-- A named number with its initial value and, possibly, a range. -/
structure Fluent where
  name : String
  value : Float
  initial : Float
  least : Option Float
  greatest : Option Float
  unit : Option String
  owner : Option String
  kind : FluentKind
  deriving Repr

namespace Fluent

/-- A fluent without a range, of the category that its name suggests. -/
def unbounded (name : String) (initial : Float) : Fluent :=
  let kind := FluentKind.ofName name
  { name, value := initial, initial, least := none, greatest := none, unit := kind.unit?,
    owner := none, kind }

/-- The number nearest to `value` in the range of a fluent: first the lower end is enforced, then
the upper one. -/
def clamp (f : Fluent) (value : Float) : Float :=
  let raised := match f.least with
    | some least => larger value least
    | none => value
  match f.greatest with
  | some greatest => smaller raised greatest
  | none => raised

/-- A fluent confined to a range, with its value and its initial value moved into it. -/
def confine (f : Fluent) (least greatest : Float) : Fluent :=
  let bounded := { f with least := some least, greatest := some greatest }
  { bounded with initial := bounded.clamp f.initial, value := bounded.clamp f.value }

/-- Writes a value, moved into the range. -/
def set (f : Fluent) (value : Float) : Fluent :=
  { f with value := f.clamp value }

/-- Whether writing a value changes it on the way. -/
def clamps (f : Fluent) (value : Float) : Bool :=
  f.clamp value != value

/-- Adds to the value. -/
def add (f : Fluent) (delta : Float) : Fluent :=
  f.set (f.value + delta)

/-- Back to the initial value. -/
def reset (f : Fluent) : Fluent :=
  { f with value := f.initial }

/-- Whether a fluent has a range. -/
def isBounded (f : Fluent) : Bool :=
  f.least.isSome || f.greatest.isSome

/-- Where the value lies in the range, as a fraction of its length; a range without length has no
fractions. -/
def fill? (f : Fluent) : Option Float :=
  match f.least, f.greatest with
  | some least, some greatest =>
      if greatest <= least then none else some ((f.value - least) / (greatest - least))
  | _, _ => none

end Fluent

end PlanPlayback
