import PlanPlayback.Decimal.Numeral

/-!
# Command lines

A command line names one of four commands and what the command needs.  Options may stand anywhere
behind the command they belong to; two of them also belong in front of it.  An option with a value
takes it from the same word, behind an equals sign, or else from the next word, unless that is an
option itself.  Behind `--` all words are operands.

An option or operand is only looked at when the next one begins or the words end, so of two faults
the one that a word shows by itself can come first.

## Main definitions

* `Level` is what a command understands, and `Scan` what has been read of its words;
* `Command` and `Invocation` are what a command line says;
* `Invocation.ofArguments` reads a command line, and `UsageFault` is why one cannot be read.
-/

namespace PlanPlayback.CommandLine

/-- Why a command line cannot be read.  A request for help or for the version is one reason. -/
inductive UsageFault where
  | help
  | version
  | nothingGiven
  | missingCommand
  | unknownCommand
  | unknownArgument
  | missingOperand
  | missingValue
  | unreadableValue
  | needlessValue
  | repeated
  deriving Repr, DecidableEq

/-- The exit code of a command line that is not carried out.  Help and version were asked for. -/
def UsageFault.exitCode : UsageFault → Nat
  | .help | .version => 0
  | _ => 2

/-- The wording of a fault; help and version are answers instead. -/
def UsageFault.message : UsageFault → String
  | .help => helpText
  | .version => "planscope 0.5.3"
  | .nothingGiven => helpText
  | .missingCommand => "a command is missing"
  | .unknownCommand => "there is no such command"
  | .unknownArgument => "there is an argument that the command does not have"
  | .missingOperand => "a file is missing"
  | .missingValue => "the value of an argument is missing"
  | .unreadableValue => "the value of an argument is no number"
  | .needlessValue => "an argument has a value that it does not take"
  | .repeated => "an argument is given twice"
where
  /-- A summary of what can be given. -/
  helpText : String :=
    "Inspect PDDL domains and replay planner output\n\n" ++
    "  classify DOMAIN [--json]                     classify the PDDL dialect of a domain\n" ++
    "  validate DOMAIN PROBLEM                      cross-check a problem against its domain\n" ++
    "  parse-plan OUTPUT [--json] [--solution]      parse planner output into a plan\n" ++
    "  simulate DOMAIN PROBLEM OUTPUT [--step SECONDS] [--seek TIME]\n" ++
    "                                               replay a plan and print its frames\n\n" ++
    "  --config FILE    the settings, planscope.toml unless another file is named\n" ++
    "  -v, --verbose    show what happens in detail\n" ++
    "  -h, --help       show this summary\n" ++
    "  -V, --version    show the version"

/-- What an option or an operand stands for. -/
inductive Role where
  | flag
  | path
  | number
  | help
  | version
  deriving Repr, DecidableEq

/-- An option, or an operand. -/
structure Form where
  name : String
  letter : Option Char := none
  role : Role
  deriving Repr, DecidableEq

/-- Whether the word that follows an option may be its value. -/
def Form.takesValue (form : Form) : Bool :=
  form.role == .path || form.role == .number

/-- The options, the operands and the commands that may follow. -/
structure Level where
  options : List Form
  operands : List Form := []
  commands : List String := []
  deriving Repr

/-- What was begun and not yet looked at. -/
inductive Pending where
  | nothing
  | awaiting (form : Form)
  | holding (form : Form) (value : String)
  deriving Repr

/-- What has been read of the words of a level: the values that were given, the number of operands,
and whether `--` has passed. -/
structure Scan where
  given : List (String × String) := []
  pending : Pending := .nothing
  operands : Nat := 0
  escaped : Bool := false
  deriving Repr

namespace Scan

/-- Whether an option still waits for its value. -/
def isAwaiting (s : Scan) : Bool :=
  match s.pending with
  | .awaiting _ => true
  | _ => false

/-- Looks at a value.  Files must have a name, and numbers must be numerals. -/
def accept (s : Scan) (form : Form) (value : String) : Except UsageFault Scan :=
  if s.given.any fun other => other.1 == form.name then .error .repeated
  else if form.role = .path ∧ value = "" then .error .missingValue
  else if form.role = .number ∧ (Decimal.floatOf? value).isNone then .error .unreadableValue
  else .ok { s with given := s.given ++ [(form.name, value)], pending := .nothing }

/-- Looks at what is pending. -/
def settle (s : Scan) : Except UsageFault Scan :=
  match s.pending with
  | .nothing => .ok s
  | .awaiting _ => .error .missingValue
  | .holding form value => s.accept form value

/-- Takes an option without a value. -/
def takeFlag (s : Scan) (form : Form) : Except UsageFault Scan := do
  let s ← s.settle
  match form.role with
  | .help => .error .help
  | .version => .error .version
  | _ => s.accept form "true"

/-- Takes an option with its full name, given without the hyphens. -/
def takeLong (s : Scan) (level : Level) (body : List Char) : Except UsageFault Scan := do
  let name := String.ofList (body.takeWhile (· != '='))
  match level.options.find? fun form => form.name == name with
  | none => .error .unknownArgument
  | some form =>
      match body.dropWhile (· != '='), form.takesValue with
      | _ :: value, true => (← s.settle).accept form (String.ofList value)
      | _ :: _, false => .error .needlessValue
      | [], true => return { (← s.settle) with pending := .awaiting form }
      | [], false => s.takeFlag form

/-- Takes options that are given by their letters. -/
def takeLetters (s : Scan) (level : Level) : List Char → Except UsageFault Scan
  | [] => .ok s
  | letter :: rest =>
      match level.options.find? fun form => form.letter == some letter with
      | none => .error .unknownArgument
      | some form => do (← s.takeFlag form).takeLetters level rest

/-- Takes an operand. -/
def takeOperand (s : Scan) (level : Level) (word : String) : Except UsageFault Scan := do
  match level.operands[s.operands]? with
  | some form =>
      return { (← s.settle) with pending := .holding form word, operands := s.operands + 1 }
  | none =>
      if level.commands.isEmpty || (s.escaped && level.commands.contains word) then
        .error .unknownArgument
      else .error .unknownCommand

/-- Takes a word that is not a command. -/
def take (s : Scan) (level : Level) (word : String) : Except UsageFault Scan :=
  if s.escaped then s.takeOperand level word
  else if word = "--" then .ok { s with escaped := true }
  else
    match word.toList, s.pending with
    | '-' :: '-' :: body, _ => s.takeLong level body
    | '-' :: letter :: rest, _ => s.takeLetters level (letter :: rest)
    | _, .awaiting form => .ok { s with pending := .holding form word }
    | _, _ => s.takeOperand level word

/-- Takes words up to the first that names a command of the level, and returns that command with
the words behind it. -/
def takeAll (s : Scan) (level : Level) :
    List String → Except UsageFault (Scan × Option (String × List String))
  | [] => .ok (s, none)
  | word :: rest =>
      if !s.escaped && !s.isAwaiting && level.commands.contains word then
        .ok (s, some (word, rest))
      else do (← s.take level word).takeAll level rest

/-- The value that was given for a name. -/
def value? (s : Scan) (name : String) : Option String :=
  s.given.lookup name

/-- Whether a flag was given. -/
def has (s : Scan) (name : String) : Bool :=
  (s.value? name).isSome

/-- The value of an operand, which must be given. -/
def operand (s : Scan) (name : String) : Except UsageFault String :=
  match s.value? name with
  | some value => .ok value
  | none => .error .missingOperand

/-- The number that was given for a name. -/
def number? (s : Scan) (name : String) : Option Float :=
  (s.value? name).bind Decimal.floatOf?

end Scan

/-! ## The commands -/

/-- What is to be done, and on which files. -/
inductive Command where
  | classify (domain : String) (json : Bool)
  | validate (domain problem : String)
  | showPlan (transcript : String) (json solution : Bool)
  | simulate (domain problem transcript : String) (step : Float) (seek : Option Float)
  deriving Repr

/-- What a command line says. -/
structure Invocation where
  settingsFile : String
  verbose : Bool
  command : Command
  deriving Repr

/-- The options that belong to every command. -/
def commonOptions : List Form :=
  [⟨"config", none, .path⟩, ⟨"verbose", some 'v', .flag⟩, ⟨"help", some 'h', .help⟩]

/-- What may stand in front of the command. -/
def topLevel : Level :=
  { options := ⟨"version", some 'V', .version⟩ :: commonOptions
    commands := ["classify", "validate", "parse-plan", "simulate", "help"] }

/-- An operand that names a file. -/
def fileOperand (name : String) : Form :=
  ⟨name, none, .path⟩

/-- What may follow a command. -/
def levelOf (command : String) : Level :=
  match command with
  | "classify" =>
      { options := ⟨"json", none, .flag⟩ :: commonOptions, operands := [fileOperand "DOMAIN"] }
  | "validate" =>
      { options := commonOptions, operands := [fileOperand "DOMAIN", fileOperand "PROBLEM"] }
  | "parse-plan" =>
      { options := ⟨"json", none, .flag⟩ :: ⟨"solution", none, .flag⟩ :: commonOptions
        operands := [fileOperand "OUTPUT"] }
  | _ =>
      { options := ⟨"step", none, .number⟩ :: ⟨"seek", none, .number⟩ :: commonOptions
        operands := [fileOperand "DOMAIN", fileOperand "PROBLEM", fileOperand "OUTPUT"] }

/-- The command of a name, with what was given for it. -/
def Command.ofScan (command : String) (s : Scan) : Except UsageFault Command := do
  match command with
  | "classify" => return .classify (← s.operand "DOMAIN") (s.has "json")
  | "validate" => return .validate (← s.operand "DOMAIN") (← s.operand "PROBLEM")
  | "parse-plan" => return .showPlan (← s.operand "OUTPUT") (s.has "json") (s.has "solution")
  | _ =>
      return .simulate (← s.operand "DOMAIN") (← s.operand "PROBLEM") (← s.operand "OUTPUT")
        ((s.number? "step").getD 1.0) (s.number? "seek")

/-- What a request for help about something amounts to. -/
def helpFault : List String → UsageFault
  | [] => .help
  | [command] => if topLevel.commands.contains command then .help else .unknownCommand
  | _ :: _ :: _ => .unknownCommand

/-- The settings file that is read unless another one is named. -/
def defaultSettingsFile : String :=
  "planscope.toml"

/-- Reads a command line.  What is given behind the command counts more than what is given in front
of it. -/
def Invocation.ofArguments (words : List String) : Except UsageFault Invocation := do
  let (outer, next) ← Scan.takeAll {} topLevel words
  match next with
  | none =>
      let outer ← outer.settle
      .error (if outer.given.isEmpty then .nothingGiven else .missingCommand)
  | some ("help", about) => .error (helpFault about)
  | some (name, rest) =>
      let (inner, _) ← Scan.takeAll {} (levelOf name) rest
      let inner ← inner.settle
      let command ← Command.ofScan name inner
      let outer ← outer.settle
      return {
        settingsFile :=
          ((inner.value? "config").or (outer.value? "config")).getD defaultSettingsFile
        verbose := inner.has "verbose" || outer.has "verbose"
        command }

end PlanPlayback.CommandLine
