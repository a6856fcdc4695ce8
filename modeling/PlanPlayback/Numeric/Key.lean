import PlanPlayback.Text.Blank

/-!
# Keys of ground fluents

A ground fluent is a function name with its arguments.  Its key is the name alone when there are no
arguments, and otherwise the name followed by the arguments in parentheses, separated by commas:
`battery(r1)`, `distance(a,b)`, `total-cost`.

* `groundKey` writes a key;
* `keyParts` reads name and arguments back.  It takes any text: blank space around an argument does
  not count, empty arguments are left out, and the parentheses need not match.
-/

namespace PlanPlayback

/-- The key of the fluent `name` over `args`. -/
def groundKey (name : String) (args : List String) : String :=
  if args.isEmpty then name else name ++ "(" ++ ",".intercalate args ++ ")"

/-- A text cut at every occurrence of a separator. -/
def splitAt (separator : Char) : List Char → List (List Char)
  | [] => [[]]
  | c :: rest =>
      if c = separator then [] :: splitAt separator rest
      else
        match splitAt separator rest with
        | [] => [[c]]
        | part :: others => (c :: part) :: others

/-- A text without the closing parentheses it ends with. -/
def dropClosing (text : List Char) : List Char :=
  (text.reverse.dropWhile (· == ')')).reverse

/-- The name and the arguments that a key was written from. -/
def keyParts (key : String) : String × List String :=
  let text := key.toList
  let name := text.takeWhile (· != '(')
  match text.dropWhile (· != '(') with
  | [] => (key, [])
  | _ :: rest =>
      let args := (splitAt ',' (dropClosing rest)).map Text.trim
      (String.ofList name, (args.filter fun arg => !arg.isEmpty).map String.ofList)

end PlanPlayback
