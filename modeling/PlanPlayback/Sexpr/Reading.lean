import PlanPlayback.Sexpr.Basic
import PlanPlayback.Sexpr.Token

/-!
# Reading s-expressions

Reading never fails.  A list that is not closed ends with the text, and a closing parenthesis that
closes nothing is passed over.

## Strategy

The tokens are read from the right.  `Reading` holds what has been read: the expressions up to the
first closing parenthesis that has no partner yet, and behind it one run of expressions for every
further one.  An opening parenthesis finds its partner in the first of them, if there is one, and
closes over everything otherwise.  So the reading of a token list is a fold, and the reading of the
first expression alone is told apart by `afterGroup`, which counts parentheses.
-/

namespace PlanPlayback

/-- The expressions in front of the first unmatched closing parenthesis, and the runs of
expressions that follow the unmatched closing parentheses in order. -/
structure Reading where
  items : List Sexpr
  outer : List (List Sexpr)
  deriving Repr

namespace Reading

/-- What has been read of an empty text. -/
def empty : Reading := ⟨[], []⟩

/-- What has been read once one more token stands in front. -/
def push : Token → Reading → Reading
  | .atom text, r => ⟨.atom text :: r.items, r.outer⟩
  | .closing, r => ⟨[], r.items :: r.outer⟩
  | .opening, r =>
      match r.outer with
      | [] => ⟨[.list r.items], []⟩
      | next :: outer => ⟨.list r.items :: next, outer⟩

/-- The reading of a list of tokens. -/
def ofTokens (tokens : List Token) : Reading :=
  tokens.foldr push empty

/-- All expressions of a reading, without regard to unmatched closing parentheses. -/
def forms (r : Reading) : List Sexpr :=
  r.items ++ r.outer.flatten

end Reading

namespace Sexpr

/-- What follows the closing parenthesis of a group inside `depth` further groups. -/
def afterGroup : Nat → List Token → List Token
  | _, [] => []
  | depth, .atom _ :: rest => afterGroup depth rest
  | depth, .opening :: rest => afterGroup (depth + 1) rest
  | 0, .closing :: rest => rest
  | depth + 1, .closing :: rest => afterGroup depth rest

/-- All expressions of a text. -/
def readForms (text : String) : List Sexpr :=
  (Reading.ofTokens (Token.tokenize text)).forms

/-- The expression that begins at an index of a token list, and the index behind it.  At a closing
parenthesis or past the end there is only the empty list. -/
def readAt (tokens : List Token) (start : Nat) : Sexpr × Nat :=
  match tokens.drop start with
  | .atom text :: _ => (.atom text, start + 1)
  | .opening :: rest =>
      (.list (Reading.ofTokens rest).items, tokens.length - (afterGroup 0 rest).length)
  | _ => (.list [], start + 1)

end Sexpr

end PlanPlayback
