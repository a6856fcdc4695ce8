import PlanPlayback.Decimal.Numeral
import PlanPlayback.Settings

/-!
# Settings documents

Settings are written in TOML or in YAML.  Both notations are read into the same tree of nodes, and
the settings are taken from the tree: fields that are missing have their default, fields that are
unknown do not matter, and a field of the wrong kind spoils the document.

The notations differ in what counts as a number, and in whether a record may be written as the list
of its fields; a plain scalar of YAML is kept as text until a field says what it is wanted for.
-/

namespace PlanPlayback

/-- A node of a settings document. -/
inductive Node where
  | text (value : String)
  | plain (value : String)
  | integer (value : Int)
  | real (value : Float)
  | notANumber (bits : NaNBits)
  | truth (value : Bool)
  | record (fields : List Node)
  | sequence (items : List Node)
  | table (members : List (String × Node))
  deriving Repr, Inhabited

namespace Node

/-- The number that a plain scalar stands for.  An infinity and what is no number are written with
a point in front, and a numeral must stand for a finite number. -/
def plainReal? (text : String) : Option Float :=
  let (negative, positive, body) := match text.toList with
    | '-' :: rest => (true, false, rest)
    | '+' :: rest => (false, true, rest)
    | rest => (false, false, rest)
  let word := String.ofList body
  if [".inf", ".Inf", ".INF"].contains word then
    some (if negative then -(1.0 / 0.0) else 1.0 / 0.0)
  else if [".nan", ".NaN", ".NAN"].contains word && !negative && !positive then some (0.0 / 0.0)
  else if positive && (body.head?.any fun c => c == '+' || c == '-') then none
  else
    match Decimal.floatOf? (if positive then word else text) with
    | some x => if x.isFinite then some x else none
    | none => none

/-- The number that a node stands for. -/
def real? : Node → Option Float
  | .integer value => some (Float.ofInt value)
  | .real value => some value
  | .notANumber _ => some (0.0 / 0.0)
  | .plain spelling => plainReal? spelling
  | _ => none

/-- The bits of the value that a node stands for, if that is no number. -/
def bits : Node → NaNBits
  | .notANumber bits => bits
  | _ => .quiet false

/-- The truth value that a node stands for. -/
def truth? : Node → Option Bool
  | .truth value => some value
  | .plain spelling =>
      if ["true", "True", "TRUE"].contains spelling then some true
      else if ["false", "False", "FALSE"].contains spelling then some false
      else none
  | _ => none

/-- The text that a node stands for. -/
def text? : Node → Option String
  | .text value => some value
  | .plain value => some value
  | _ => none

/-- The items of a list; a plain scalar without text counts as an empty list. -/
def items? : Node → Option (List Node)
  | .record fields => some fields
  | .sequence items => some items
  | .plain "" => some []
  | _ => none

/-- The members of a record with the given fields; a plain scalar without text has none.  A known
field that occurs twice spoils the record. -/
def members? (fields : List String) : Node → Option (List (String × Node))
  | .table members =>
      if fields.any fun field => 1 < (members.filter fun member => member.1 == field).length then
        none
      else some members
  | .record values => some (fields.zip values)
  | .plain "" => some []
  | _ => none

/-- A field of a record, with a default if it is missing. -/
def fieldOr {α : Type} (members : List (String × Node)) (field : String)
    (read : Node → Option α) (default : α) : Option α :=
  match members.lookup field with
  | some node => read node
  | none => some default

/-- A field of a record that must be there. -/
def field? {α : Type} (members : List (String × Node)) (field : String)
    (read : Node → Option α) : Option α :=
  (members.lookup field).bind read

end Node

/-- Reads how a plan is played. -/
def PlaybackSettings.ofNode? (node : Node) : Option PlaybackSettings := do
  let members ← node.members? ["speed", "end_behavior"]
  let defaults : PlaybackSettings := {}
  let speed ← Node.fieldOr members "speed" Node.real? defaults.speed
  let endBehavior ← Node.fieldOr members "end_behavior"
    (fun value => value.text?.bind EndBehavior.ofWord?) defaults.endBehavior
  return { speed, endBehavior }

/-- Reads the durations. -/
def DurationSettings.ofNode? (node : Node) : Option DurationSettings := do
  let members ← node.members?
    ["default_action_duration", "zero_duration_substitute", "classical_step_duration"]
  let defaults : DurationSettings := {}
  let unstated ← Node.fieldOr members "default_action_duration" Node.real? defaults.unstated
  let zeroSubstitute ←
    Node.fieldOr members "zero_duration_substitute" Node.real? defaults.zeroSubstitute
  let classicalStep ←
    Node.fieldOr members "classical_step_duration" Node.real? defaults.classicalStep
  let stepBits ←
    Node.fieldOr members "classical_step_duration" (fun value => some value.bits) defaults.stepBits
  return { unstated, zeroSubstitute, classicalStep, stepBits }

/-- Reads a fallback rule.  The fluent is a battery unless another one is named. -/
def FallbackRule.ofNode? (node : Node) : Option FallbackRule := do
  let members ← node.members? ["pattern", "fluent", "delta"]
  let pattern ← Node.field? members "pattern" Node.text?
  let fluent ← Node.fieldOr members "fluent" Node.text? "battery"
  let delta ← Node.field? members "delta" Node.real?
  return { pattern, fluent, delta }

/-- Reads the settings of fluents. -/
def FluentSettings.ofNode? (node : Node) : Option FluentSettings := do
  let members ← node.members?
    ["battery_min", "battery_max", "battery_initial", "use_heuristics", "heuristics"]
  let defaults : FluentSettings := {}
  let batteryLeast ← Node.fieldOr members "battery_min" Node.real? defaults.batteryLeast
  let batteryGreatest ← Node.fieldOr members "battery_max" Node.real? defaults.batteryGreatest
  let batteryInitial ← Node.fieldOr members "battery_initial" Node.real? defaults.batteryInitial
  let usesRules ← Node.fieldOr members "use_heuristics" Node.truth? defaults.usesRules
  let rules ← Node.fieldOr members "heuristics"
    (fun value => value.items?.bind fun items => items.mapM FallbackRule.ofNode?) defaults.rules
  return { batteryLeast, batteryGreatest, batteryInitial, usesRules, rules }

/-- Reads all settings. -/
def Settings.ofNode? (node : Node) : Option Settings := do
  let members ← node.members? ["playback", "parser", "fluents"]
  let playback ← Node.fieldOr members "playback" PlaybackSettings.ofNode? {}
  let durations ← Node.fieldOr members "parser" DurationSettings.ofNode? {}
  let fluents ← Node.fieldOr members "fluents" FluentSettings.ofNode? {}
  return { playback, durations, fluents }

/-- Why a settings document is refused: it cannot be read, or a setting makes no sense. -/
inductive SettingsError where
  | unreadable
  | invalid (fault : SettingsFault)
  deriving Repr

/-- The settings of a document, given the tree of its nodes. -/
def Settings.ofTree (tree : Option Node) : Except SettingsError Settings :=
  match tree.bind Settings.ofNode? with
  | none => .error .unreadable
  | some settings =>
      match settings.fault? with
      | some fault => .error (.invalid fault)
      | none => .ok settings

end PlanPlayback
