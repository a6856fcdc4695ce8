/-!
# Records of the log

What happens is logged as a record: a level, a target that says which program speaks, and named
fields.  The field `event` names what happened; it decides which of the other fields are read.

* `Record.text?`, `Record.count?` and `Record.number?` read fields;
* a record that lacks a field, or has a field of another type there, is still a record.
-/

namespace PlanPlayback.Console

/-- How important a record is. -/
inductive Level where
  | error
  | warn
  | info
  | debug
  | trace
  deriving Repr, DecidableEq

namespace Level

/-- How much a level lets through: a filter of that level admits every record of at most that
depth. -/
def depth : Level → Nat
  | error => 1
  | warn => 2
  | info => 3
  | debug => 4
  | trace => 5

/-- The name of a level. -/
def name : Level → String
  | error => "error"
  | warn => "warn"
  | info => "info"
  | debug => "debug"
  | trace => "trace"

/-- The level of a name. -/
def ofName? (text : String) : Option Level :=
  [error, warn, info, debug, trace].find? fun level => level.name == text

end Level

/-- The value of a field.  A `shown` value is logged by the way it is printed. -/
inductive Value where
  | text (content : String)
  | shown (content : String)
  | integer (value : Int)
  | real (value : Float)
  deriving Repr

/-- A record of the log. -/
structure Record where
  level : Level
  target : String
  fields : List (String × Value)
  deriving Repr

/-- The target of what this program logs about itself. -/
def ownTarget : String :=
  "planscope"

/-- A record that this program logs about something that happened. -/
def Record.about (level : Level) (event : String) (fields : List (String × Value)) : Record :=
  { level, target := ownTarget, fields := ("event", .text event) :: fields }

/-- A text without the quotation marks around it. -/
def unquoted (text : String) : String :=
  let inner := text.toList.dropWhile (· == '"')
  String.ofList (inner.reverse.dropWhile (· == '"')).reverse

namespace Value

/-- The text of a value.  Quotation marks around a shown value are dropped. -/
def text? : Value → Option String
  | .text content => some content
  | .shown content => some (unquoted content)
  | _ => none

/-- The count that a value stands for; there are no negative counts. -/
def count? : Value → Option Nat
  | .integer value => some value.toNat
  | _ => none

/-- The number that a value stands for.  A negative integer counts as zero here too. -/
def number? : Value → Option Float
  | .integer value => some (Float.ofNat value.toNat)
  | .real value => some value
  | _ => none

end Value

namespace Record

/-- The first of several fields that holds a text. -/
def text? (r : Record) (names : List String) : Option String :=
  r.fields.findSome? fun field => if names.contains field.1 then field.2.text? else none

/-- The text of a field, or a question mark. -/
def textOf (r : Record) (name : String) : String :=
  (r.text? [name]).getD "?"

/-- The count in a field. -/
def count? (r : Record) (name : String) : Option Nat :=
  r.fields.findSome? fun field => if field.1 == name then field.2.count? else none

/-- The count in a field, or zero. -/
def countOf (r : Record) (name : String) : Nat :=
  (r.count? name).getD 0

/-- The number in a field. -/
def number? (r : Record) (name : String) : Option Float :=
  r.fields.findSome? fun field => if field.1 == name then field.2.number? else none

/-- The number in a field, or zero. -/
def numberOf (r : Record) (name : String) : Float :=
  (r.number? name).getD 0.0

end Record

end PlanPlayback.Console
