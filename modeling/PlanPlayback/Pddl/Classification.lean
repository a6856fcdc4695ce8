import PlanPlayback.Dialect
import PlanPlayback.Pddl.Domain

/-!
# The dialect of a domain

Domains often leave out or misstate their requirements, so the dialect of a domain is told from its
requirements and its structure together, by a cascade of stages.

1. PDDL+: requirements about processes or events, declared ones, or the continuous time `#t`.
2. Temporal or metric-temporal: a durative requirement and a durative action; metric if a durative
   action changes numbers or numbers are required.
3. Numeric: numbers are required or functions declared, and an action computes with them.
4. Classical: nothing is required beyond `:strips` and `:typing`.
5. Unknown: all other domains.

Each stage records what it went by.  A judgement is corroborated when the structure of the domain
bears out its declarations, and the confidence in it says so.
-/

namespace PlanPlayback

/-- What a stage of the cascade found. -/
structure Judgement where
  kind : DomainKind
  indicators : List String
  corroborated : Bool
  deriving Repr

/-- The judgement on a domain, with the confidence in it. -/
structure Classification where
  kind : DomainKind
  confidence : Float
  indicators : List String
  requirements : List String
  deriving Repr

/-- How the lists begin whose presence in a durative action makes a domain metric. -/
def updateOpenings : List String := ["(increase ", "(decrease ", "(assign "]

/-- How the lists begin whose presence in an action makes a domain numeric. -/
def arithmeticOpenings : List String :=
  ["(increase ", "(decrease ", "(assign ", "(scale-up ", "(scale-down ", "(+ ", "(- ", "(* ",
    "(/ ", "(>= ", "(<= "]

namespace Operator

/-- Whether one of several openings occurs in the text of an operator. -/
def hasOpening (op : Operator) (openings : List String) : Bool :=
  openings.any (Text.contains op.source)

end Operator

namespace Domain

/-- The first requirement of a domain that is one of the wanted ones. -/
def firstRequirement? (d : Domain) (wanted : List String) : Option String :=
  d.requirements.find? wanted.contains

/-- The first stage: processes, events and continuous time. -/
def pddlPlusJudgement? (d : Domain) : Option Judgement :=
  let required := d.requirements.find? fun r =>
    Text.contains r "process" || Text.contains r "event"
  let declares := !d.processes.isEmpty || !d.events.isEmpty
  let continuous := d.operators.find? fun op => Text.contains op.source "#t"
  let indicators :=
    (required.map ("Requirement " ++ ·)).toList ++
      (if declares then
        ["Declares " ++ toString d.processes.length ++ " process(es) and " ++
          toString d.events.length ++ " event(s)"]
      else []) ++
      (continuous.map fun op => "Continuous-time marker #t in '" ++ op.name ++ "'").toList
  if indicators.isEmpty then none
  else some ⟨.of .pddlPlus, indicators, declares || continuous.isSome⟩

/-- The second stage: durative actions, with or without numbers. -/
def temporalJudgement? (d : Domain) : Option Judgement :=
  match
    d.firstRequirement? [":durative-actions", ":time"], d.actions.filter Operator.isDurative
  with
  | some requirement, first :: others =>
      let durative := first :: others
      let numericAction := durative.find? fun op =>
        op.changesNumbers || op.hasOpening updateOpenings
      let numericRequirement := d.firstRequirement? [":numeric-fluents", ":fluents"]
      let isMetric := numericAction.isSome || numericRequirement.isSome
      some
        { kind := .of (if isMetric then .metricTemporal else .temporal)
          indicators :=
            ["Requirement " ++ requirement, "Durative action '" ++ first.name ++ "'"] ++
              (numericAction.map fun op =>
                "Numeric effects in durative action '" ++ op.name ++ "'").toList ++
              (numericRequirement.map ("Requirement " ++ ·)).toList
          corroborated := durative.any fun op =>
            op.kind == .durativeAction && op.duration.isSome }
  | _, _ => none

/-- The third stage: actions that compute with numbers. -/
def numericJudgement? (d : Domain) : Option Judgement :=
  let ground :=
    match d.firstRequirement? [":numeric-fluents", ":fluents"] with
    | some requirement => some ("Requirement " ++ requirement)
    | none =>
        if d.functions.isEmpty then none
        else some ("Declares " ++ toString d.functions.length ++ " function(s)")
  let action := d.actions.find? fun op =>
    op.changesNumbers || !op.comparisons.isEmpty || op.hasOpening arithmeticOpenings
  match ground, action with
  | some indicator, some op =>
      some ⟨.of .numeric, [indicator, "Numeric operators in action '" ++ op.name ++ "'"],
        !d.functions.isEmpty && op.changesNumbers⟩
  | _, _ => none

/-- The fourth stage: nothing beyond the basic requirements. -/
def classicalJudgement? (d : Domain) : Option Judgement :=
  if d.requirements.all fun r => [":strips", ":typing"].contains r then
    some
      { kind := .of .classical
        indicators :=
          if d.requirements.isEmpty then ["No requirements declared"]
          else ["Requirements " ++ " ".intercalate d.requirements]
        corroborated := d.functions.isEmpty &&
          d.actions.all fun op => !op.isDurative && !op.changesNumbers }
  else none

/-- The judgement on a domain: the first stage that finds something decides. -/
def judgement (d : Domain) : Judgement :=
  ((d.pddlPlusJudgement?.orElse fun _ => d.temporalJudgement?).orElse fun _ =>
    d.numericJudgement?.orElse fun _ => d.classicalJudgement?).getD
    ⟨.unknown, ["Requirements not covered by any dialect: " ++ " ".intercalate d.requirements],
      false⟩

/-- The dialect of a domain, with a confidence of 0.95 in a corroborated judgement, of 0.9 in any
other and of 0.3 where no stage finds anything. -/
def classify (d : Domain) : Classification :=
  let judgement := d.judgement
  let confidence :=
    if judgement.kind == .unknown then 0.3 else if judgement.corroborated then 0.95 else 0.9
  ⟨judgement.kind, confidence, judgement.indicators, d.requirements⟩

end Domain

end PlanPlayback
