/-!
# Updates of a number

The numeric effects of a plan change a number in one of five ways.  This file names them, reads and
writes their keywords, and says what each does to a number.
-/

namespace PlanPlayback

/-- The five ways to change a number. -/
inductive Update where
  | increase
  | decrease
  | assign
  | scaleUp
  | scaleDown
  deriving Repr, DecidableEq

namespace Update

/-- The keyword that stands for an update in a domain. -/
def keyword : Update → String
  | increase => "increase"
  | decrease => "decrease"
  | assign => "assign"
  | scaleUp => "scale-up"
  | scaleDown => "scale-down"

/-- The update that a keyword stands for. -/
def ofKeyword? (text : String) : Option Update :=
  [increase, decrease, assign, scaleUp, scaleDown].find? fun update => update.keyword == text

/-- The number after an update.  Scaling down by zero leaves it as it is. -/
def apply (update : Update) (current amount : Float) : Float :=
  match update with
  | increase => current + amount
  | decrease => current - amount
  | assign => amount
  | scaleUp => current * amount
  | scaleDown => if amount == 0.0 then current else current / amount

end Update

end PlanPlayback
