/-!
# Search statistics

Planners report how long they searched and what they found on the way.  Everything is optional.
-/

namespace PlanPlayback

/-- The size of a grounded problem and the time that grounding took. -/
structure Grounding where
  facts : Option Nat := none
  actions : Option Nat := none
  time : Option Float := none
  deriving Repr

/-- Whether nothing is known about grounding. -/
def Grounding.isEmpty (g : Grounding) : Bool :=
  g.facts.isNone && g.actions.isNone && g.time.isNone

/-- A node of the search: the cost so far and the estimate of what is left. -/
structure SearchNode where
  cost : Float
  estimate : Float
  deriving Repr

/-- The priority of a node in the search. -/
def SearchNode.priority (node : SearchNode) : Float :=
  node.cost + node.estimate

/-- What a planner reported about its search. -/
structure Statistics where
  planLength : Option Nat := none
  planCost : Option Float := none
  planningTime : Option Float := none
  searchTime : Option Float := none
  heuristicTime : Option Float := none
  expandedNodes : Option Nat := none
  statesEvaluated : Option Nat := none
  deadEnds : Option Nat := none
  duplicates : Option Nat := none
  grounding : Option Grounding := none
  searchNodes : List SearchNode := []
  deriving Repr

/-- Whether nothing was reported. -/
def Statistics.isEmpty (s : Statistics) : Bool :=
  s.planLength.isNone && s.planCost.isNone && s.planningTime.isNone && s.searchTime.isNone &&
    s.heuristicTime.isNone && s.expandedNodes.isNone && s.statesEvaluated.isNone &&
    s.deadEnds.isNone && s.duplicates.isNone && s.grounding.isNone && s.searchNodes.isEmpty

end PlanPlayback
