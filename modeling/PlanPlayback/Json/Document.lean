import PlanPlayback.Decimal.Shortest

/-!
# JSON documents

The machine-readable output is JSON.  A `Document` is a JSON value; `compact` writes it on one line
and `pretty` over several, two blanks of indentation for each level.  Numbers that are not finite
have no JSON text and are written as `null`.
-/

namespace PlanPlayback.Json

/-- A JSON value; the members of an object keep their order. -/
inductive Document where
  | null
  | bool (value : Bool)
  | integer (value : Int)
  | float (value : Float)
  | string (value : String)
  | array (items : List Document)
  | object (members : List (String × Document))
  deriving Repr, Inhabited

/-- The hexadecimal digits of a number below 256, two of them. -/
def twoHexDigits (n : Nat) : List Char :=
  [Nat.digitChar (n / 16), Nat.digitChar (n % 16)]

/-- A character inside a JSON string. -/
def escapeChar (c : Char) : List Char :=
  if c = '"' then ['\\', '"']
  else if c = '\\' then ['\\', '\\']
  else if c = '\n' then ['\\', 'n']
  else if c = '\r' then ['\\', 'r']
  else if c = '\t' then ['\\', 't']
  else if c.toNat = 8 then ['\\', 'b']
  else if c.toNat = 12 then ['\\', 'f']
  else if c.toNat < 0x20 then ['\\', 'u', '0', '0'] ++ twoHexDigits c.toNat
  else [c]

/-- A text as a JSON string. -/
def quoted (text : String) : String :=
  "\"" ++ String.ofList (text.toList.flatMap escapeChar) ++ "\""

namespace Document

/-- A natural number. -/
def natural (n : Nat) : Document :=
  .integer n

/-- A value that may be missing. -/
def ofOption {α : Type} (document : α → Document) (x : Option α) : Document :=
  (x.map document).getD .null

/-- The texts of the values without parts. -/
def scalar : Document → String
  | .bool true => "true"
  | .bool false => "false"
  | .integer value => toString value
  | .float value => (Decimal.exponential? value).getD "null"
  | .string value => quoted value
  | _ => "null"

mutual

/-- A document on one line, without blanks. -/
def compact : Document → String
  | .array items => "[" ++ compactItems items ++ "]"
  | .object members => "\x7b" ++ compactMembers members ++ "\x7d"
  | other => other.scalar

/-- The items of an array on one line. -/
def compactItems : List Document → String
  | [] => ""
  | [item] => item.compact
  | item :: next :: rest => item.compact ++ "," ++ compactItems (next :: rest)

/-- The members of an object on one line. -/
def compactMembers : List (String × Document) → String
  | [] => ""
  | [(name, value)] => quoted name ++ ":" ++ value.compact
  | (name, value) :: next :: rest =>
      quoted name ++ ":" ++ value.compact ++ "," ++ compactMembers (next :: rest)

end

/-- A line break with the indentation of a level. -/
def newLine (level : Nat) : String :=
  "\n" ++ String.ofList (List.replicate (2 * level) ' ')

mutual

/-- A document over several lines, inside `level` levels of indentation. -/
def prettyAt (level : Nat) : Document → String
  | .array [] => "[]"
  | .array (item :: rest) =>
      "[" ++ prettyItems (level + 1) (item :: rest) ++ newLine level ++ "]"
  | .object [] => "\x7b\x7d"
  | .object (member :: rest) =>
      "\x7b" ++ prettyMembers (level + 1) (member :: rest) ++ newLine level ++ "\x7d"
  | other => other.scalar

/-- The items of an array, each on a line of its own. -/
def prettyItems (level : Nat) : List Document → String
  | [] => ""
  | [item] => newLine level ++ item.prettyAt level
  | item :: next :: rest =>
      newLine level ++ item.prettyAt level ++ "," ++ prettyItems level (next :: rest)

/-- The members of an object, each on a line of its own. -/
def prettyMembers (level : Nat) : List (String × Document) → String
  | [] => ""
  | [(name, value)] => newLine level ++ quoted name ++ ": " ++ value.prettyAt level
  | (name, value) :: next :: rest =>
      newLine level ++ quoted name ++ ": " ++ value.prettyAt level ++ "," ++
        prettyMembers level (next :: rest)

end

/-- A document over several lines. -/
def pretty (document : Document) : String :=
  document.prettyAt 0

end Document

end PlanPlayback.Json
