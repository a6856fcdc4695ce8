/-!
# Columns

Cells of a table are filled up with spaces to a width, which is counted in characters.  A text that
is wider than its column is not cut.
-/

namespace PlanPlayback.Text

/-- The spaces that a text lacks to a width. -/
def filling (width : Nat) (text : String) : String :=
  String.ofList (List.replicate (width - text.length) ' ')

/-- A text at the left end of a column. -/
def padEnd (width : Nat) (text : String) : String :=
  text ++ filling width text

/-- A text at the right end of a column. -/
def padStart (width : Nat) (text : String) : String :=
  filling width text ++ text

end PlanPlayback.Text
