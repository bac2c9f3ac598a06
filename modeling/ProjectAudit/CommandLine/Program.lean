import ProjectAudit.CommandLine.CatalogCommand
import ProjectAudit.CommandLine.CheckCommand

/-!
# Programs

A program takes the words of its command line and ends with an exit code and two texts.  A wish for
help is answered on standard output, and a usage error on standard error with exit code 2.
-/

namespace ProjectAudit.CommandLine

/-- How a program ended. -/
structure ProgramEnd where
  /-- The exit code, or the failure that the program ended with. -/
  exit : Except Failure Nat
  stdout : Text := []
  stderr : Text := []
  calls : List Call := []
  /-- The host as the program leaves it. -/
  host : Host

/-- The exit code of a usage error. -/
def usageExitCode : Nat := 2

/-- How a program ends on what its command line asks for. -/
def Grammar.conclude {α : Type} (g : Grammar α) (h : Host) (arguments : List Text)
    (run : α → ProgramEnd) : ProgramEnd :=
  match g.parse arguments with
  | .error e => { exit := .ok usageExitCode, stderr := g.errorText e, host := h }
  | .ok .help => { exit := .ok 0, stdout := g.helpText, host := h }
  | .ok (.command settings) => run settings

/-- The log as it is printed. -/
def logText (least : LogLevel) (events : List Event) : Text :=
  (Event.log least events).flatMap fun record => record.withSource ++ "\n"

/-- The program that checks a project. -/
def checkProgram (h : Host) (script : Cargo.Script) (stamp : Stamp) (arguments : List Text) :
    ProgramEnd :=
  checkGrammar.conclude h arguments fun settings =>
    let ending := settings.runPrinting h stamp script
    { exit := ending.value.map (·.1)
      stdout := Event.fullText ending.events
      stderr := logText settings.logLevel ending.events
      calls := Event.calls ending.events
      host := match ending.value with
        | .ok (_, host) => host
        | .error _ => h }

/-- The program that prints the catalog. -/
def catalogProgram (h : Host) (arguments : List Text) : ProgramEnd :=
  catalogGrammar.conclude h arguments fun layout =>
    { exit := .ok 0, stdout := Catalog.text layout, host := h }

end ProjectAudit.CommandLine
