import PlanPlayback.Text.LetterCase
import PlanPlayback.Text.Scan

/-!
# The lines of a plan

A planner prints more than its plan.  The plan begins behind the line that announces it, if there is
one, and it ends at the first line of search statistics.  Comments and blank lines are left out.

* `opensStatistics` tells the lines at which a plan ends;
* `bodyLines` are the lines that may hold actions, without blank space at their ends.
-/

namespace PlanPlayback.Transcript

open PlanPlayback.Text

/-- The words that announce a plan. -/
def announcement : String := "found plan:"

/-- Whether a line is a comment. -/
def isComment : List Char → Bool
  | c :: _ => c == ';' || c == '#'
  | [] => false

/-- Whether a line reports on the search, so that the plan is over. -/
def opensStatistics (line : List Char) : Bool :=
  ((word? "plan-length" line).bind fun rest => exactly? ':' (skipBlanks rest)).isSome ||
    (word? "metric" line).any (fun rest => !startsWithWordChar rest) ||
    (word? "planning time" line).isSome ||
    (word? "search time" line).isSome ||
    (word? "expanded nodes" line).isSome

/-- Whether a line announces a plan. -/
def announces (line : List Char) : Bool :=
  hasPart announcement.toList (lowercase line)

/-- The lines behind the first one that announces a plan, or all lines if none does. -/
def afterAnnouncement (all : List (List Char)) : List (List Char) :=
  match all.dropWhile fun line => !announces line with
  | [] => all
  | _ :: rest => rest

/-- The lines of a transcript that may hold actions. -/
def bodyLines (text : String) : List (List Char) :=
  let body := (afterAnnouncement (lines text.toList)).map trim
  let candidates := body.filter fun line => !line.isEmpty && !isComment line
  candidates.takeWhile fun line => !opensStatistics line

end PlanPlayback.Transcript
