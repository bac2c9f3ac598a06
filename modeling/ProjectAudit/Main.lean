import ProjectAudit.CommandLine.Program
import ProjectAudit.Json.Reader
import ProjectAudit.Snapshot

/-!
# The programs

`catalog` as the first word prints the catalog.  Any other command line is one of the program that
checks a project; it reads a snapshot of the machine from standard input, in which the root is the
base directory, and which may give the report its name and time.
-/

namespace ProjectAudit

/-- Reads a stream to its end. -/
partial def readAll (stream : IO.FS.Stream) (before : String) : IO String := do
  let line ← stream.getLine
  if line.isEmpty then return before
  readAll stream (before ++ line)

/-- The name and time that a snapshot gives the report. -/
def stampOf (v : Json) : CommandLine.Stamp where
  runId := (v.get "run_id").str?.getD "run"
  generatedAt := (v.get "generated_at").str?.getD "1970-01-01T00:00:00Z"

/-- Prints what a program printed and ends as it ended. -/
def conclude (ending : CommandLine.ProgramEnd) : IO UInt32 := do
  (← IO.getStdout).putStr ending.stdout.toStringLossy
  (← IO.getStderr).putStr ending.stderr.toStringLossy
  match ending.exit with
  | .ok code => return code.toUInt32
  | .error failure =>
    (← IO.getStderr).putStrLn failure.message.toStringLossy
    return 1

/-- Runs the program that the command line names. -/
def runProgram : List String → IO UInt32
  | "catalog" :: arguments => conclude (CommandLine.catalogProgram {} (arguments.map Text.ofString))
  | arguments => do
    let input ← readAll (← IO.getStdin) ""
    match Json.read input with
    | .ok v =>
      conclude (CommandLine.checkProgram (Snapshot.host [] v) (Snapshot.script v) (stampOf v)
        (arguments.map Text.ofString))
    | .error _ =>
      (← IO.getStderr).putStrLn "The snapshot on standard input is no JSON value"
      return 1

end ProjectAudit

/-- Runs the program that the command line names. -/
def main (arguments : List String) : IO UInt32 :=
  ProjectAudit.runProgram arguments
