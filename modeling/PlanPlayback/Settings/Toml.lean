import PlanPlayback.Settings.Node

/-!
# TOML

A TOML document is a list of statements: a key with its value, or the header of a table, which the
keys behind it belong to.  This file reads the part of the notation that settings use: dotted and
quoted keys, tables and arrays of tables, strings on one line, integers, floats, truth values,
arrays and inline tables.

## Strategy

The text is read twice over.  `statements?` takes it apart into statements, by recursive descent
with the length of the text as fuel.  `assembled?` then enters the statements into a tree; a key
that is given twice and a table that is opened twice are refused there.

Values are nodes; a list value is a `record`, because a list may stand for a record here.
-/

namespace PlanPlayback.Toml

/-! ## Lexical parts -/

/-- Passes over blanks and tabs. -/
def skipSpace (text : List Char) : List Char :=
  text.dropWhile fun c => c == ' ' || c == '\t'

/-- Passes over a comment, up to the end of its line. -/
def skipComment : List Char → List Char
  | '#' :: rest => rest.dropWhile (· != '\n')
  | text => text

/-- Passes over one line end. -/
def lineEnd? : List Char → Option (List Char)
  | '\n' :: rest => some rest
  | '\r' :: '\n' :: rest => some rest
  | _ => none

/-- Passes over blanks, comments and line ends. -/
def skipLines : Nat → List Char → List Char
  | 0, text => text
  | fuel + 1, text =>
      let rest := skipComment (skipSpace text)
      match lineEnd? rest with
      | some next => skipLines fuel next
      | none => rest

/-- Whether a character may stand in a key without quotes. -/
def isKeyChar (c : Char) : Bool :=
  c.isAlphanum || c == '_' || c == '-'

/-- The value of a hexadecimal digit. -/
def hexValue? (c : Char) : Option Nat :=
  if c.isDigit then some (c.toNat - '0'.toNat)
  else if 'a' ≤ c && c ≤ 'f' then some (c.toNat - 'a'.toNat + 10)
  else if 'A' ≤ c && c ≤ 'F' then some (c.toNat - 'A'.toNat + 10)
  else none

/-- The character with the code that hexadecimal digits stand for. -/
def codePoint? (digits : List Char) : Option Char :=
  let value := digits.foldl
    (fun value digit => value.bind fun v => (hexValue? digit).map fun d => 16 * v + d) (some 0)
  value.bind fun v => if v.isValidChar then some (Char.ofNat v) else none

/-- Whether a character may stand for itself in a string. -/
def isStringChar (c : Char) : Bool :=
  c == '\t' || (0x20 ≤ c.toNat && c.toNat != 0x7F)

/-- The rest of a string in double quotes, and what follows it. -/
def basicString? : List Char → Option (List Char × List Char)
  | [] => none
  | '"' :: rest => some ([], rest)
  | '\\' :: 'u' :: a :: b :: c :: d :: rest => do
      let first ← codePoint? [a, b, c, d]
      let (others, behind) ← basicString? rest
      return (first :: others, behind)
  | '\\' :: 'U' :: a :: b :: c :: d :: e :: f :: g :: h :: rest => do
      let first ← codePoint? [a, b, c, d, e, f, g, h]
      let (others, behind) ← basicString? rest
      return (first :: others, behind)
  | '\\' :: c :: rest => do
      let first ← [('b', '\x08'), ('t', '\t'), ('n', '\n'), ('f', '\x0c'), ('r', '\r'),
        ('"', '"'), ('\\', '\\')].lookup c
      let (others, behind) ← basicString? rest
      return (first :: others, behind)
  | c :: rest =>
      if isStringChar c && c != '\\' then
        (basicString? rest).map fun (others, behind) => (c :: others, behind)
      else none

/-- The rest of a string in single quotes, and what follows it. -/
def literalString? (text : List Char) : Option (List Char × List Char) :=
  let body := text.takeWhile (· != '\'')
  match text.dropWhile (· != '\'') with
  | _ :: behind => if body.all isStringChar then some (body, behind) else none
  | [] => none

/-- A single part of a key. -/
def keyPart? : List Char → Option (String × List Char)
  | '"' :: rest => (basicString? rest).map fun (name, behind) => (String.ofList name, behind)
  | '\'' :: rest => (literalString? rest).map fun (name, behind) => (String.ofList name, behind)
  | text =>
      let name := text.takeWhile isKeyChar
      if name.isEmpty then none else some (String.ofList name, text.dropWhile isKeyChar)

/-- A key: its parts, separated by points. -/
def key? : Nat → List Char → Option (List String × List Char)
  | 0, _ => none
  | fuel + 1, text => do
      let (part, rest) ← keyPart? (skipSpace text)
      match skipSpace rest with
      | '.' :: behind =>
          let (parts, rest) ← key? fuel behind
          return (part :: parts, rest)
      | behind => return ([part], behind)

/-! ## Numbers -/

/-- A run of digits with single underscores between digits, without the underscores. -/
def digitRun? (isDigit : Char → Bool) (text : List Char) : Option (List Char) :=
  let rec go : Bool → List Char → Option (List Char)
    | afterDigit, [] => if afterDigit then some [] else none
    | afterDigit, c :: rest =>
        if c == '_' then if afterDigit then go false rest else none
        else if isDigit c then (go true rest).map (c :: ·)
        else none
  go false text

/-- Decimal digits without a superfluous zero in front. -/
def wholePart? (text : List Char) : Option (List Char) :=
  match digitRun? Char.isDigit text with
  | some ('0' :: _ :: _) => none
  | other => other

/-- The value of digits to a base. -/
def valueIn (base : Nat) (digits : List Char) : Nat :=
  digits.foldl (fun value digit => base * value + (hexValue? digit).getD 0) 0

/-- An integer, if it fits into 64 bits. -/
def boundedInteger? (value : Int) : Option Node :=
  let bound : Int := Nat.pow 2 63
  if -bound ≤ value && value < bound then some (.integer value) else none

/-- A float from its sign, whole part, fraction and exponent, each already checked. -/
def float? (negative : Bool) (digits : List Char) : Option Node :=
  (Decimal.float? digits).bind fun value =>
    if value.isInf && !negative then none else some (.real (if negative then -value else value))

/-- The digits and the sign of an exponent. -/
def exponent? (text : List Char) : Option (List Char) :=
  match text with
  | '-' :: rest => (digitRun? Char.isDigit rest).map ('-' :: ·)
  | '+' :: rest => digitRun? Char.isDigit rest
  | rest => digitRun? Char.isDigit rest

/-- A decimal number without its sign. -/
def decimal? (negative : Bool) (text : List Char) : Option Node := do
  let isMark := fun c : Char => c == 'e' || c == 'E'
  let mantissa := text.takeWhile fun c => !isMark c
  let power ← match text.dropWhile fun c => !isMark c with
    | [] => some []
    | _ :: digits => (exponent? digits).map ('e' :: ·)
  let whole ← wholePart? (mantissa.takeWhile (· != '.'))
  match mantissa.dropWhile (· != '.') with
  | [] =>
      if power.isEmpty then
        let value : Int := valueIn 10 whole
        boundedInteger? (if negative then -value else value)
      else float? negative (whole ++ power)
  | _ :: fraction => do
      let fraction ← digitRun? Char.isDigit fraction
      float? negative (whole ++ '.' :: (fraction ++ power))

/-- A number in another base, with its mark in front. -/
def based? (text : List Char) : Option Node :=
  match text with
  | '0' :: 'x' :: digits =>
      (digitRun? (fun c => (hexValue? c).isSome) digits).bind fun d =>
        boundedInteger? (valueIn 16 d)
  | '0' :: 'o' :: digits =>
      (digitRun? (fun c => '0' ≤ c && c ≤ '7') digits).bind fun d => boundedInteger? (valueIn 8 d)
  | '0' :: 'b' :: digits =>
      (digitRun? (fun c => c == '0' || c == '1') digits).bind fun d =>
        boundedInteger? (valueIn 2 d)
  | _ => none

/-- A word or a number. -/
def scalar? (text : List Char) : Option Node :=
  let (signed, negative, body) := match text with
    | '-' :: rest => (true, true, rest)
    | '+' :: rest => (true, false, rest)
    | rest => (false, false, rest)
  match String.ofList body with
  | "true" => if signed then none else some (.truth true)
  | "false" => if signed then none else some (.truth false)
  | "inf" => some (.real (if negative then -(1.0 / 0.0) else 1.0 / 0.0))
  | "nan" => some (.notANumber (.quiet negative))
  | _ => if signed then decimal? negative body else (based? body).or (decimal? false body)

/-! ## Values -/

/-- Whether a character may stand in a word or a number. -/
def isScalarChar (c : Char) : Bool :=
  isKeyChar c || c == '+' || c == '.'

/-- Enters a value at a dotted key of an inline table. -/
def enterInline? (members : List (String × Node)) :
    List String → Node → Option (List (String × Node))
  | [], _ => none
  | [name], value =>
      if (members.lookup name).isSome then none else some (members ++ [(name, value)])
  | name :: next :: rest, value =>
      match members.lookup name with
      | none => (enterInline? [] (next :: rest) value).map fun inner =>
          members ++ [(name, .table inner)]
      | some _ => none

mutual

/-- A value, and what follows it. -/
def value? : Nat → List Char → Option (Node × List Char)
  | 0, _ => none
  | _ + 1, '"' :: rest =>
      (basicString? rest).map fun (s, behind) => (.text (String.ofList s), behind)
  | _ + 1, '\'' :: rest =>
      (literalString? rest).map fun (s, behind) => (.text (String.ofList s), behind)
  | fuel + 1, '[' :: rest =>
      (arrayItems? fuel rest).map fun (items, behind) => (.record items, behind)
  | fuel + 1, '\x7b' :: rest =>
      match skipSpace rest with
      | '\x7d' :: behind => some (.table [], behind)
      | inside => (inlineMembers? fuel [] inside).map fun (members, behind) =>
          (.table members, behind)
  | _ + 1, text =>
      (scalar? (text.takeWhile isScalarChar)).map fun node => (node, text.dropWhile isScalarChar)

/-- The items of an array up to its closing bracket, and what follows it. -/
def arrayItems? : Nat → List Char → Option (List Node × List Char)
  | 0, _ => none
  | fuel + 1, text =>
      match skipLines text.length text with
      | ']' :: behind => some ([], behind)
      | inside => do
          let (item, rest) ← value? fuel inside
          match skipLines rest.length rest with
          | ',' :: next =>
              let (items, behind) ← arrayItems? fuel next
              return (item :: items, behind)
          | ']' :: behind => return ([item], behind)
          | _ => none

/-- The members of an inline table up to its closing brace, and what follows it. -/
def inlineMembers? : Nat → List (String × Node) → List Char →
    Option (List (String × Node) × List Char)
  | 0, _, _ => none
  | fuel + 1, members, text => do
      let (key, rest) ← key? (text.length + 1) text
      let rest ← match skipSpace rest with
        | '=' :: behind => some (skipSpace behind)
        | _ => none
      let (value, rest) ← value? fuel rest
      let members ← enterInline? members key value
      match skipSpace rest with
      | ',' :: next => inlineMembers? fuel members next
      | '\x7d' :: behind => return (members, behind)
      | _ => none

end

/-! ## Statements -/

/-- A statement of a document. -/
inductive Statement where
  | assign (key : List String) (value : Node)
  | openTable (path : List String)
  | openItem (path : List String)
  deriving Repr

/-- A header behind its opening brackets, up to the closing ones. -/
def header? (closing : List Char) (text : List Char) : Option (List String × List Char) := do
  let (path, rest) ← key? (text.length + 1) text
  let behind ← Text.afterPrefix? closing rest
  return (path, behind)

/-- One statement, and what follows it on its line. -/
def statement? : List Char → Option (Statement × List Char)
  | '[' :: '[' :: rest =>
      (header? [']', ']'] rest).map fun (path, behind) => (.openItem path, behind)
  | '[' :: rest => (header? [']'] rest).map fun (path, behind) => (.openTable path, behind)
  | text => do
      let (key, rest) ← key? (text.length + 1) text
      match rest with
      | '=' :: behind =>
          let (value, rest) ← value? (text.length + 1) (skipSpace behind)
          return (.assign key value, rest)
      | _ => none

/-- The statements of a document, one a line. -/
def statements? : Nat → List Char → Option (List Statement)
  | 0, _ => none
  | fuel + 1, text =>
      match skipLines text.length text with
      | [] => some []
      | start => do
          let (statement, rest) ← statement? start
          let rest := skipComment (skipSpace rest)
          if rest.isEmpty then return [statement]
          let next ← lineEnd? rest
          let others ← statements? fuel next
          return statement :: others

/-! ## The tree -/

/-- How a table of the tree came about: by a header of its own, by a longer header that passes
through it, or by a dotted key. -/
inductive Origin where
  | header
  | passage
  | dotted
  deriving Repr, DecidableEq

/-- A part of the tree that is being built. -/
inductive Branch where
  | value (node : Node)
  | table (origin : Origin) (members : List (String × Branch))
  | tables (items : List (List (String × Branch)))
  deriving Repr

/-- The members of a table. -/
abbrev Members := List (String × Branch)

/-- Members with one of them put in place of the one of its name, or added at the end. -/
def put (members : Members) (name : String) (branch : Branch) : Members :=
  match members with
  | [] => [(name, branch)]
  | (other, old) :: rest =>
      if other == name then (name, branch) :: rest else (other, old) :: put rest name branch

/-- Enters a value at a dotted key. -/
def assign? (members : Members) : List String → Node → Option Members
  | [], _ => none
  | [name], value =>
      if (members.lookup name).isSome then none else some (put members name (.value value))
  | name :: next :: rest, value =>
      match members.lookup name with
      | none => (assign? [] (next :: rest) value).map fun inner =>
          put members name (.table .dotted inner)
      | some (.table .dotted inner) => (assign? inner (next :: rest) value).map fun inner =>
          put members name (.table .dotted inner)
      | some _ => none

/-- Changes the table at a path, or makes it; the last item stands for an array of tables. -/
def alter? (change : Option Branch → Option Branch) (members : Members) :
    List String → Option Members
  | [] => none
  | [name] => (change (members.lookup name)).map fun branch => put members name branch
  | name :: next :: rest =>
      match members.lookup name with
      | none => (alter? change [] (next :: rest)).map fun inner =>
          put members name (.table .passage inner)
      | some (.table origin inner) => (alter? change inner (next :: rest)).map fun inner =>
          put members name (.table origin inner)
      | some (.tables items) =>
          match items.getLast? with
          | none => none
          | some last => (alter? change last (next :: rest)).map fun inner =>
              put members name (.tables (items.dropLast ++ [inner]))
      | some (.value _) => none

/-- Opens the table of a header. -/
def opened? : Option Branch → Option Branch
  | none => some (.table .header [])
  | some (.table .passage members) => some (.table .header members)
  | _ => none

/-- Adds an item to an array of tables. -/
def extended? : Option Branch → Option Branch
  | none => some (.tables [[]])
  | some (.tables items) => some (.tables (items ++ [[]]))
  | _ => none

/-- Enters a value into the table that was opened last. -/
def assigned? (key : List String) (value : Node) : Option Branch → Option Branch
  | some (.table origin members) => (assign? members key value).map (.table origin)
  | some (.tables items) =>
      match items.getLast? with
      | none => none
      | some last => (assign? last key value).map fun inner =>
          .tables (items.dropLast ++ [inner])
  | _ => none

/-- Enters statements into a tree, where `path` leads to the table that was opened last. -/
def assembled? (path : List String) (tree : Members) : List Statement → Option Members
  | [] => some tree
  | .assign key value :: rest =>
      let next := if path.isEmpty then assign? tree key value
        else alter? (assigned? key value) tree path
      next.bind fun tree => assembled? path tree rest
  | .openTable opening :: rest =>
      (alter? opened? tree opening).bind fun tree => assembled? opening tree rest
  | .openItem opening :: rest =>
      (alter? extended? tree opening).bind fun tree => assembled? opening tree rest

mutual

/-- The node of a finished part of the tree. -/
def Branch.node : Branch → Node
  | .value node => node
  | .table _ members => .table (memberNodes members)
  | .tables items => .record (tableNodes items)

/-- The nodes of the members of a table. -/
def memberNodes : List (String × Branch) → List (String × Node)
  | [] => []
  | (name, branch) :: rest => (name, branch.node) :: memberNodes rest

/-- The nodes of several tables. -/
def tableNodes : List (List (String × Branch)) → List Node
  | [] => []
  | members :: rest => .table (memberNodes members) :: tableNodes rest

end

/-- The tree of a TOML document. -/
def tree? (text : String) : Option Node := do
  let statements ← statements? (text.toList.length + 1) text.toList
  let members ← assembled? [] [] statements
  return .table (memberNodes members)

/-- The settings of a TOML document. -/
def settings (text : String) : Except SettingsError Settings :=
  Settings.ofTree (tree? text)

end PlanPlayback.Toml
