import PlanPlayback.Pddl.Problem
import PlanPlayback.Pddl.TypedList
import PlanPlayback.Pddl.Walk
import PlanPlayback.Sexpr.Reading
import PlanPlayback.Text.LetterCase

/-!
# Reading domains and problems

The text of a domain or a problem is mapped to lower case, its comments are dropped, and the first
list that begins with `define` is read section by section.  Only a text without such a list is
refused; whatever else cannot be read is left out and reported.

## Main definitions

* `definition?` is the list that is read;
* `Operator.ofSection` reads one operator, `Domain.addSection` and `Problem.addSection` take one
  section into account;
* `Domain.parse?` and `Problem.parse?` read a whole text.
-/

namespace PlanPlayback

/-- The first list of a text that begins with `define`, in lower case and without comments. -/
def definition? (text : String) : Option Sexpr :=
  (Sexpr.readForms (withoutComments (Text.lowercased text))).find? fun form =>
    form.head? == some "define"

/-- The atom that a list of expressions begins with. -/
def leadingAtom? (body : List Sexpr) : Option String :=
  body.head?.bind Sexpr.atom?

/-! ## Operators -/

/-- An operator under construction: its fields so far, the findings about its keys, and the
findings inside its conditions and effects. -/
structure OperatorDraft where
  operator : Operator
  issues : List FormIssue := []
  inner : List WalkIssue := []
  deriving Repr

namespace OperatorDraft

/-- Takes one key of an operator and its value into account. -/
def addField (draft : OperatorDraft) (key value : Sexpr) : OperatorDraft :=
  let op := draft.operator
  match key.atom? with
  | some ":parameters" =>
      { draft with operator := { op with parameters := typedAtoms value.items } }
  | some ":precondition" | some ":condition" =>
      let leaves := conditions .instant value
      { draft with
        operator := { op with
          preconditions := op.preconditions ++ leaves.literals
          comparisons := op.comparisons ++ leaves.comparisons }
        inner := draft.inner ++ leaves.issues }
  | some ":effect" =>
      let leaves := effects .instant value
      { draft with
        operator := { op with
          effects := op.effects ++ leaves.literals
          numericEffects := op.numericEffects ++ leaves.numericEffects }
        inner := draft.inner ++ leaves.issues }
  | some ":duration" => { draft with operator := { op with duration := some value.render } }
  | _ => { draft with issues := draft.issues ++ [.unknownKey op.name key] }

/-- Takes keys and values in turn into account.  A last key without a value is reported. -/
def addFields (draft : OperatorDraft) : List Sexpr → OperatorDraft
  | [] => draft
  | [key] => { draft with issues := draft.issues ++ [.missingValue draft.operator.name key] }
  | key :: value :: rest => (draft.addField key value).addFields rest

end OperatorDraft

/-- The operator that a section declares, with the findings.  The findings about keys come before
those inside conditions and effects. -/
def Operator.ofSection (kind : OperatorKind) (declaration : Sexpr) :
    Option Operator × List FormIssue :=
  match leadingAtom? declaration.tail with
  | none => (none, [.namelessOperator declaration])
  | some name =>
      let start : OperatorDraft :=
        { operator := { name, kind, source := declaration.render } }
      let draft := start.addFields (declaration.tail.drop 1)
      (some draft.operator, draft.issues ++ draft.inner.map (.inOperator name))

/-! ## Domains -/

/-- The predicates that a section declares. -/
def PredicateDecl.ofSection (body : List Sexpr) : List PredicateDecl × List FormIssue :=
  (body.filterMap fun decl => decl.head?.map fun name => ⟨name, typedAtoms decl.tail⟩,
    (body.filter fun decl => decl.head?.isNone).map .malformedPredicate)

/-- The functions that a section declares. -/
def FunctionDecl.ofSection (body : List Sexpr) : List FunctionDecl × List FormIssue :=
  let items := typedItems body
  (items.filterMap fun (decl, returns) =>
      decl.head?.map fun name => ⟨name, typedAtoms decl.tail, returns⟩,
    (items.filter fun item => item.1.head?.isNone).map fun item => .malformedFunction item.1)

/-- The types that a section declares. -/
def TypeDecl.ofSection (body : List Sexpr) : List TypeDecl :=
  (typedItems body).filterMap fun (item, parent) => item.atom?.map fun name => ⟨name, parent⟩

namespace Domain

/-- Takes one section of a domain into account. -/
def addSection (d : Domain) (item : Sexpr) : Domain × List FormIssue :=
  let body := item.tail
  match item.head? with
  | none => (d, [.unexpectedItem item])
  | some "domain" =>
      match leadingAtom? body with
      | some name => ({ d with name }, [])
      | none => (d, [.missingDomainName])
  | some ":requirements" => ({ d with requirements := body.filterMap Sexpr.atom? }, [])
  | some ":types" => ({ d with types := TypeDecl.ofSection body }, [])
  | some ":constants" => ({ d with constants := typedAtoms body }, [])
  | some ":predicates" =>
      let (predicates, issues) := PredicateDecl.ofSection body
      ({ d with predicates }, issues)
  | some ":functions" =>
      let (functions, issues) := FunctionDecl.ofSection body
      ({ d with functions }, issues)
  | some ":action" =>
      let (op, issues) := Operator.ofSection .action item
      ({ d with actions := d.actions ++ op.toList }, issues)
  | some ":durative-action" =>
      let (op, issues) := Operator.ofSection .durativeAction item
      ({ d with actions := d.actions ++ op.toList }, issues)
  | some ":process" =>
      let (op, issues) := Operator.ofSection .process item
      ({ d with processes := d.processes ++ op.toList }, issues)
  | some ":event" =>
      let (op, issues) := Operator.ofSection .event item
      ({ d with events := d.events ++ op.toList }, issues)
  | some keyword => (d, [.unknownDomainSection keyword])

/-- The domain that a list of sections declares. -/
def ofSections (sections : List Sexpr) : Parsed Domain :=
  sections.foldl
    (fun parsed item =>
      let (value, issues) := parsed.value.addSection item
      ⟨value, parsed.issues ++ issues⟩)
    ⟨{}, []⟩

/-- Reads the text of a domain; a text without a `define` list is refused. -/
def parse? (text : String) : Option (Parsed Domain) :=
  (definition? text).map fun form => ofSections form.tail

end Domain

/-! ## Problems -/

/-- Whether the operands of `at` make a timed initial literal: a number and a list. -/
def isTimedLiteral : List Sexpr → Bool
  | [.atom time, .list _] => (Decimal.floatOf? time).isSome
  | _ => false

/-- The initial value that the operands of `=` state. -/
def InitialNumber.of? : List Sexpr → Option InitialNumber
  | [target, value] =>
      match (value.atom?).bind Decimal.floatOf? with
      | some number =>
          (fluentTarget? target).map fun (function, args) => ⟨function, args, number⟩
      | none => none
  | _ => none

/-- What one entry of an initial state says: a literal, a number, or a finding. -/
inductive InitEntry where
  | literal (l : Literal)
  | number (init : InitialNumber)
  | unread (issue : FormIssue)
  deriving Repr

/-- Reads one entry of an initial state. -/
def InitEntry.ofSexpr (entry : Sexpr) : InitEntry :=
  let rest := entry.tail
  match entry.head? with
  | none => .unread (.malformedInit entry)
  | some head =>
      if head == "=" then
        match InitialNumber.of? rest with
        | some init => .number init
        | none => .unread (.malformedNumericInit entry)
      else if head == "not" then
        match rest.head?.bind (Literal.ofSexpr? .instant) with
        | some inner => .literal inner.negate
        | none => .unread (.malformedNegatedInit entry)
      else if head == "at" && isTimedLiteral rest then .unread (.timedLiteral entry)
      else .literal ⟨head, rest.filterMap Sexpr.atom?, .instant⟩

/-- The metric that a section states. -/
def Metric.ofSection (declaration : Sexpr) : Option Metric × List FormIssue :=
  match declaration.tail with
  | [direction, expression] =>
      match direction.atom? with
      | some "minimize" => (some ⟨.minimize, Expression.ofSexpr expression⟩, [])
      | some "maximize" => (some ⟨.maximize, Expression.ofSexpr expression⟩, [])
      | _ => (none, [.unknownDirection direction])
  | _ => (none, [.malformedMetric declaration])

namespace Problem

/-- Takes one entry of an initial state into account. -/
def addInit (p : Problem) (entry : Sexpr) : Problem × List FormIssue :=
  match InitEntry.ofSexpr entry with
  | .literal l => ({ p with init := p.init ++ [l] }, [])
  | .number init => ({ p with numericInit := p.numericInit ++ [init] }, [])
  | .unread issue => (p, [issue])

/-- Takes one section of a problem into account.  Initial states add up; any other section takes
the place of an earlier one of its kind. -/
def addSection (p : Problem) (item : Sexpr) : Problem × List FormIssue :=
  let body := item.tail
  match item.head? with
  | none => (p, [.unexpectedItem item])
  | some "problem" =>
      match leadingAtom? body with
      | some name => ({ p with name }, [])
      | none => (p, [.missingProblemName])
  | some ":domain" =>
      match leadingAtom? body with
      | some domain => ({ p with domain }, [])
      | none => (p, [.missingProblemDomain])
  | some ":objects" => ({ p with objects := typedAtoms body }, [])
  | some ":init" =>
      body.foldl
        (fun (p, issues) entry =>
          let (next, found) := p.addInit entry
          (next, issues ++ found))
        (p, [])
  | some ":goal" =>
      let leaves := conditionsOfAll .instant body
      ({ p with goal := leaves.literals }, leaves.issues.map .inGoal)
  | some ":metric" =>
      let (metric, issues) := Metric.ofSection item
      ({ p with metric }, issues)
  | some ":requirements" => (p, [])
  | some keyword => (p, [.unknownProblemSection keyword])

/-- The problem that a list of sections states. -/
def ofSections (sections : List Sexpr) : Parsed Problem :=
  sections.foldl
    (fun parsed item =>
      let (value, issues) := parsed.value.addSection item
      ⟨value, parsed.issues ++ issues⟩)
    ⟨{}, []⟩

/-- Reads the text of a problem; a text without a `define` list is refused. -/
def parse? (text : String) : Option (Parsed Problem) :=
  (definition? text).map fun form => ofSections form.tail

end Problem

end PlanPlayback
