import PlanPlayback.Json.Document
import PlanPlayback.Plan.Basic

/-!
# Plans as documents

The machine-readable form of a plan: its actions with their effects, the totals, and what the
planner reported.  Missing values are `null`.
-/

namespace PlanPlayback

open Json

/-- The document of a printed effect. -/
def PlannedEffect.document (e : PlannedEffect) : Document :=
  .object [("fluent", .string e.fluent), ("operation", .string e.update.keyword),
    ("value", .float e.amount)]

/-- The document of an action. -/
def Action.document (a : Action) : Document :=
  .object [("id", .string a.id), ("name", .string a.name),
    ("args", .array (a.args.map .string)), ("start_time", .float a.start),
    ("duration", .float a.duration), ("end_time", .float a.finish),
    ("numeric_effects", .array (a.effects.map PlannedEffect.document)),
    ("source_rule", Document.ofOption .string a.rule)]

/-- The document of a grounding. -/
def Grounding.document (g : Grounding) : Document :=
  .object [("facts", Document.ofOption .natural g.facts),
    ("actions", Document.ofOption .natural g.actions), ("time", Document.ofOption .float g.time)]

/-- The document of a node of the search. -/
def SearchNode.document (node : SearchNode) : Document :=
  .object [("g", .float node.cost), ("h", .float node.estimate)]

/-- The document of what a planner reported. -/
def Statistics.document (s : Statistics) : Document :=
  .object [("plan_length", Document.ofOption .natural s.planLength),
    ("plan_cost", Document.ofOption .float s.planCost),
    ("planning_time", Document.ofOption .float s.planningTime),
    ("search_time", Document.ofOption .float s.searchTime),
    ("heuristic_time", Document.ofOption .float s.heuristicTime),
    ("expanded_nodes", Document.ofOption .natural s.expandedNodes),
    ("states_evaluated", Document.ofOption .natural s.statesEvaluated),
    ("dead_ends", Document.ofOption .natural s.deadEnds),
    ("duplicates", Document.ofOption .natural s.duplicates),
    ("grounding", Document.ofOption Grounding.document s.grounding),
    ("search_nodes", .array (s.searchNodes.map SearchNode.document))]

/-- The document of a plan.  No plan has processes. -/
def Plan.document (p : Plan) : Document :=
  .object [("dialect", .string p.dialect.tag), ("actions", .array (p.actions.map Action.document)),
    ("processes", .array []), ("total_duration", .float p.totalDuration),
    ("makespan", .float p.makespan), ("cost", .float p.cost),
    ("metrics", p.statistics.document)]

end PlanPlayback
