import PlanPlayback.CommandLine.Execution
import PlanPlayback.Console.Line

/-!
# The program

The files that a command reads are read beforehand; the command is then a function of their
contents.  Its lines and its log go to the standard output in order, failures to the standard error.
-/

namespace PlanPlayback.CommandLine

/-- The content of a file. -/
def readContent (name : String) : IO (Except FileFault String) := do
  try
    return .ok (← IO.FS.readFile name)
  catch
    | .noFileOrDirectory .. => return .error .missing
    | fault => return .error (.other (toString fault))

/-- Prints what a command put out.  Records are shown if the filter admits them, with the time that
has passed since a start, both in milliseconds. -/
def printOutput (filter : Console.Filter) (start : Nat) : Output → IO Unit
  | .line text => IO.println text
  | .logged record => do
      let now ← IO.monoMsNow
      let elapsed := Console.elapsedCell (Float.ofNat (now - start) / 1000.0)
      (Console.shownLines filter elapsed [record]).forM fun line => IO.println line

/-- The mark in front of a failure. -/
def failureMark : String :=
  Console.bold (Console.coloured .red "error:")

/-- Carries out a command line. -/
def runInvocation (invocation : Invocation) : IO Nat := do
  let start ← IO.monoMsNow
  let files ← invocation.inputs.mapM fun name => return (name, ← readContent name)
  let (result, outputs) := invocation.outcome fun name =>
    (files.lookup name).getD (.error .missing)
  let filter := Console.Filter.ofText
    (Console.ownTarget ++ if invocation.verbose then "=debug" else "=warn")
  outputs.forM (printOutput filter start)
  match result with
  | .ok verdict => return verdict.exitCode
  | .error failure =>
      IO.eprintln (failureMark ++ " " ++ failure.message)
      return 1

end PlanPlayback.CommandLine

open PlanPlayback.CommandLine in
/-- The program. -/
def main (words : List String) : IO UInt32 := do
  match Invocation.ofArguments words with
  | .ok invocation => return (← runInvocation invocation).toUInt32
  | .error fault =>
      if fault.exitCode = 0 then IO.println fault.message
      else IO.eprintln (failureMark ++ " " ++ fault.message)
      return fault.exitCode.toUInt32
