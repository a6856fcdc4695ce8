import PlanPlayback.Transcript.ActionLine
import PlanPlayback.Transcript.Cues
import PlanPlayback.Transcript.Lines
import PlanPlayback.Transcript.Report

/-!
# Reading the plan of a transcript

The lines of a plan are read one after the other; lines that no rule of the dialect recognises are
passed over.  A transcript in which no line is recognised has no plan.

* `actionsOn` reads the lines, each with the number of actions before it;
* `planIn?` reads a transcript as one of a given dialect, `plan?` detects the dialect first.
-/

namespace PlanPlayback.Transcript

/-- The actions on lines of a dialect, when `position` actions precede them.  The position of a line
counts the actions before it, not the lines. -/
def actionsOn (dialect : Dialect) (settings : DurationSettings) (position : Nat) :
    List (List Char) → List Action
  | [] => []
  | line :: rest =>
      match actionOnLine dialect settings position line with
      | some action => action :: actionsOn dialect settings (position + 1) rest
      | none => actionsOn dialect settings position rest

/-- The plan of a transcript in a known dialect. -/
def planIn? (dialect : Dialect) (settings : DurationSettings) (text : String) : Option Plan :=
  let actions := actionsOn dialect settings 0 (bodyLines text)
  if actions.isEmpty then none
  else some (Plan.assemble dialect actions (searchReport text))

/-- The plan of a transcript. -/
def plan? (settings : DurationSettings) (text : String) : Option Plan :=
  planIn? (detect text).dialect settings text

end PlanPlayback.Transcript
