import PlanPlayback.Settings.Node

/-!
# YAML

A YAML document is a tree whose shape is given by indentation.  This file reads the part of the
notation that settings use: block mappings and block sequences, scalars with and without quotes, and
flow sequences and mappings on one line.

## Strategy

`contentLines?` turns the text into lines without comments, each with its indentation.
`block?` reads the lines at one level: a line that begins with a dash and a blank is an item of a
sequence, any other line is a member of a mapping, and what is indented more deeply belongs to the
line above.  An item is read as a line of its own that is indented to where its content begins.
-/

namespace PlanPlayback.Yaml

/-- A line with its indentation, without the comment at its end. -/
structure ContentLine where
  indent : Nat
  content : List Char
  deriving Repr

/-- A text up to a comment.  A comment begins with a number sign at the start or behind blank space,
outside quotes; `quote` is the quotation mark that is open, `before` the character in front. -/
def withoutComment (quote : Option Char) (before : Char) : List Char → List Char
  | [] => []
  | c :: rest =>
      match quote with
      | some mark =>
          c :: withoutComment (if c == mark && before != '\\' then none else quote) c rest
      | none =>
          if c == '#' && (before == ' ' || before == '\t') then []
          else if (c == '"' || c == '\'') && [' ', '\t', '[', ',', '\x7b', ':'].contains before then
            c :: withoutComment (some c) c rest
          else c :: withoutComment none c rest

/-- A text without blanks and tabs at its end. -/
def dropTrailing (text : List Char) : List Char :=
  (text.reverse.dropWhile fun c => c == ' ' || c == '\t').reverse

/-- A text without blanks and tabs at its beginning. -/
def skipSpace (text : List Char) : List Char :=
  text.dropWhile fun c => c == ' ' || c == '\t'

/-- The content of a line; a line that is indented by tabs is refused. -/
def contentLine? (line : List Char) : Option ContentLine :=
  let indent := (line.takeWhile (· == ' ')).length
  let content := dropTrailing (withoutComment none ' ' (line.drop indent))
  if content.head? == some '\t' then none else some ⟨indent, content⟩

/-- The lines of a document that are not blank.  A line of three dashes may come first. -/
def contentLines? (text : String) : Option (List ContentLine) :=
  ((Text.lines text.toList).mapM contentLine?).map fun all =>
    match all.filter fun line => !line.content.isEmpty with
    | ⟨0, ['-', '-', '-']⟩ :: rest => rest
    | found => found

/-! ## Scalars and flow collections -/

/-- The rest of a text in double quotes, and what follows it. -/
def doubleQuoted? : List Char → Option (List Char × List Char)
  | [] => none
  | '"' :: rest => some ([], rest)
  | '\\' :: c :: rest => do
      let first ← [('n', '\n'), ('t', '\t'), ('r', '\r'), ('"', '"'), ('\\', '\\'), ('/', '/'),
        ('0', '\x00'), (' ', ' ')].lookup c
      let (others, behind) ← doubleQuoted? rest
      return (first :: others, behind)
  | c :: rest => (doubleQuoted? rest).map fun (others, behind) => (c :: others, behind)

/-- The rest of a text in single quotes, where a quote is written twice, and what follows it. -/
def singleQuoted? : List Char → Option (List Char × List Char)
  | [] => none
  | '\'' :: '\'' :: rest =>
      (singleQuoted? rest).map fun (others, behind) => ('\'' :: others, behind)
  | '\'' :: rest => some ([], rest)
  | c :: rest => (singleQuoted? rest).map fun (others, behind) => (c :: others, behind)

/-- The marks of the notation with which no plain scalar begins. -/
def indicators : List Char :=
  [',', '[', ']', '\x7b', '\x7d', '#', '&', '*', '!', '|', '>', '\'', '"', '%', '@', '\x60']

/-- Whether a character may begin a plain scalar, given the one behind it. -/
def beginsPlain (first : Char) (second : Option Char) : Bool :=
  if ['-', '?', ':'].contains first then second.any fun c => c != ' ' && c != '\t'
  else !indicators.contains first

/-- Whether a colon inside a text ends a key. -/
def hasKeyMark : List Char → Bool
  | [] => false
  | [c] => c == ':'
  | ':' :: ' ' :: _ => true
  | ':' :: '\t' :: _ => true
  | _ :: rest => hasKeyMark rest

/-- A plain scalar that fills a text. -/
def plain? : List Char → Option Node
  | [] => some (.plain "")
  | first :: rest =>
      if beginsPlain first rest.head? && !hasKeyMark (first :: rest) then
        some (.plain (String.ofList (first :: rest)))
      else none

/-- Whether a character ends a plain scalar inside a flow collection. -/
def endsFlowScalar (c : Char) : Bool :=
  [',', '[', ']', '\x7b', '\x7d'].contains c

/-- A plain scalar inside a flow collection, and what follows it; in a mapping it ends at a colon
with a blank behind it. -/
def flowScalar (text : List Char) : List Char × List Char :=
  match text with
  | [] => ([], [])
  | ':' :: rest =>
      if rest.head?.all (fun c => c == ' ' || c == '\t' || endsFlowScalar c) then ([], ':' :: rest)
      else
        let (others, behind) := flowScalar rest
        (':' :: others, behind)
  | c :: rest =>
      if endsFlowScalar c then ([], c :: rest)
      else
        let (others, behind) := flowScalar rest
        (c :: others, behind)

mutual

/-- A value inside a flow collection, and what follows it. -/
def flowValue? : Nat → List Char → Option (Node × List Char)
  | 0, _ => none
  | fuel + 1, text =>
      match skipSpace text with
      | '[' :: rest => (flowItems? fuel rest).map fun (items, behind) => (.sequence items, behind)
      | '\x7b' :: rest =>
          (flowMembers? fuel rest).map fun (members, behind) => (.table members, behind)
      | '"' :: rest =>
          (doubleQuoted? rest).map fun (s, behind) => (.text (String.ofList s), behind)
      | '\'' :: rest =>
          (singleQuoted? rest).map fun (s, behind) => (.text (String.ofList s), behind)
      | rest =>
          let (scalar, behind) := flowScalar rest
          (plain? (dropTrailing scalar)).map fun node => (node, behind)

/-- The items of a flow sequence up to its closing bracket, and what follows it. -/
def flowItems? : Nat → List Char → Option (List Node × List Char)
  | 0, _ => none
  | fuel + 1, text =>
      match skipSpace text with
      | ']' :: behind => some ([], behind)
      | inside => do
          let (item, rest) ← flowValue? fuel inside
          match skipSpace rest with
          | ',' :: next =>
              let (items, behind) ← flowItems? fuel next
              return (item :: items, behind)
          | ']' :: behind => return ([item], behind)
          | _ => none

/-- The members of a flow mapping up to its closing brace, and what follows it. -/
def flowMembers? : Nat → List Char → Option (List (String × Node) × List Char)
  | 0, _ => none
  | fuel + 1, text =>
      match skipSpace text with
      | '\x7d' :: behind => some ([], behind)
      | inside => do
          let (key, rest) ← flowValue? fuel inside
          let name ← key.text?
          let (value, rest) ← match skipSpace rest with
            | ':' :: behind => flowValue? fuel behind
            | other => some (.plain "", other)
          match skipSpace rest with
          | ',' :: next =>
              let (members, behind) ← flowMembers? fuel next
              return ((name, value) :: members, behind)
          | '\x7d' :: behind => return ([(name, value)], behind)
          | _ => none

end

/-- A value that fills the rest of a line. -/
def inlineValue? (text : List Char) : Option Node :=
  match text with
  | [] => some (.plain "")
  | c :: _ =>
      if ['[', '\x7b', '"', '\''].contains c then
        match flowValue? (text.length + 1) text with
        | some (node, rest) => if (skipSpace rest).isEmpty then some node else none
        | none => none
      else plain? text

/-! ## Blocks -/

/-- A plain key up to its colon, and what follows the colon. -/
def plainKey? : List Char → Option (List Char × List Char)
  | [] => none
  | [c] => if c == ':' then some ([], []) else none
  | ':' :: ' ' :: rest => some ([], rest)
  | ':' :: '\t' :: rest => some ([], rest)
  | c :: rest => (plainKey? rest).map fun (others, behind) => (c :: others, behind)

/-- The key of a line and what stands behind its colon. -/
def key? (content : List Char) : Option (String × List Char) :=
  let quoted := fun (found : Option (List Char × List Char)) => do
    let (name, rest) ← found
    match skipSpace rest with
    | ':' :: behind => some (String.ofList name, skipSpace behind)
    | _ => none
  match content with
  | '"' :: rest => quoted (doubleQuoted? rest)
  | '\'' :: rest => quoted (singleQuoted? rest)
  | first :: rest =>
      if beginsPlain first rest.head? then
        (plainKey? content).map fun (name, behind) =>
          (String.ofList (dropTrailing name), skipSpace behind)
      else none
  | [] => none

/-- Whether a line is an item of a sequence. -/
def isItem (content : List Char) : Bool :=
  match content with
  | ['-'] => true
  | '-' :: c :: _ => c == ' ' || c == '\t'
  | _ => false

mutual

/-- The value whose lines are indented by at least `indent`, and the lines behind it. -/
def block? : Nat → Nat → List ContentLine → Option (Node × List ContentLine)
  | 0, _, _ => none
  | _ + 1, _, [] => some (.plain "", [])
  | fuel + 1, indent, line :: rest =>
      if line.indent < indent then some (.plain "", line :: rest)
      else if isItem line.content then
        (sequence? fuel line.indent (line :: rest)).map fun (items, behind) =>
          (.sequence items, behind)
      else
        match key? line.content with
        | some _ => (mapping? fuel line.indent (line :: rest)).map fun (members, behind) =>
            (.table members, behind)
        | none => (inlineValue? line.content).map fun node => (node, rest)

/-- The items of a sequence at a level, and the lines behind it. -/
def sequence? : Nat → Nat → List ContentLine → Option (List Node × List ContentLine)
  | 0, _, _ => none
  | _ + 1, _, [] => some ([], [])
  | fuel + 1, indent, line :: rest =>
      if line.indent < indent || (line.indent == indent && !isItem line.content) then
        some ([], line :: rest)
      else if line.indent != indent then none
      else do
        let inner := skipSpace (line.content.drop 1)
        let offset := line.content.length - inner.length
        let following := if inner.isEmpty then rest else ⟨indent + offset, inner⟩ :: rest
        let (item, behind) ← block? fuel (indent + 1) following
        let (items, behind) ← sequence? fuel indent behind
        return (item :: items, behind)

/-- The members of a mapping at a level, and the lines behind it.  A sequence may stand at the
level of the key that it belongs to. -/
def mapping? : Nat → Nat → List ContentLine → Option (List (String × Node) × List ContentLine)
  | 0, _, _ => none
  | _ + 1, _, [] => some ([], [])
  | fuel + 1, indent, line :: rest =>
      if line.indent < indent then some ([], line :: rest)
      else if line.indent != indent || isItem line.content then none
      else do
        let (name, behind) ← key? line.content
        let (value, following) ←
          if !behind.isEmpty then (inlineValue? behind).map fun node => (node, rest)
          else
            match rest with
            | next :: _ =>
                if next.indent == indent && isItem next.content then
                  (sequence? fuel indent rest).map fun (items, lines) => (.sequence items, lines)
                else block? fuel (indent + 1) rest
            | [] => some (.plain "", [])
        let (members, lines) ← mapping? fuel indent following
        return ((name, value) :: members, lines)

end

/-- The tree of a YAML document. -/
def tree? (text : String) : Option Node := do
  let lines ← contentLines? text
  let (node, rest) ← block? (2 * text.length + 2) 0 lines
  if rest.isEmpty then some node else none

/-- The settings of a YAML document. -/
def settings (text : String) : Except SettingsError Settings :=
  Settings.ofTree (tree? text)

end PlanPlayback.Yaml
