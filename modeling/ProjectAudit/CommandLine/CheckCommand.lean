import ProjectAudit.Audit.Check
import ProjectAudit.CommandLine.Grammar
import ProjectAudit.Json.Printer

/-!
# The command that checks a project

The command loads the settings, finds a checklist, checks the project and writes the report to a
file if it is asked to.  Without a checklist of its own it takes the nearest one, seen from the
working directory, and if there is none it evaluates the default rules.

A setup failure is printed instead of a report, and nothing is written.
-/

namespace ProjectAudit.CommandLine

/-- What the command is asked to do. -/
structure CheckArguments where
  manifest : Path := .ofText "./Cargo.toml"
  checklist : Option Path := none
  strict : Bool := false
  settingsFile : Option Path := none
  reportFile : Option Path := none
  listRules : Bool := false
  verbose : Bool := false
  deriving DecidableEq, Repr

/-- The command that checks a project. -/
def checkGrammar : Grammar CheckArguments where
  program := "culture"
  flags := [
    ⟨["-h", "--help"], .help⟩,
    ⟨["--manifest-path"], .value [] fun s a => { a with manifest := .ofText s }⟩,
    ⟨["--culture-checklist-path"], .value [] fun s a => { a with checklist := some (.ofText s) }⟩,
    ⟨["--strict"], .switch fun a => { a with strict := true }⟩,
    ⟨["--rules-config"], .value [] fun s a => { a with settingsFile := some (.ofText s) }⟩,
    ⟨["--json-out"], .value [] fun s a => { a with reportFile := some (.ofText s) }⟩,
    ⟨["--list-rules"], .switch fun a => { a with listRules := true }⟩,
    ⟨["-v", "--verbose"], .switch fun a => { a with verbose := true }⟩]
  defaults := {}
  usage :=
    "usage: culture [-h] [--manifest-path MANIFEST_PATH]\n" ++
    "               [--culture-checklist-path CULTURE_CHECKLIST_PATH] [--strict]\n" ++
    "               [--rules-config RULES_CONFIG] [--json-out JSON_OUT]\n" ++
    "               [--list-rules] [-v]\n"
  explanation :=
    "\nCheck a Cargo project against a set of project culture rules.\n\n" ++
    "options:\n" ++
    "  -h, --help            show this help message and exit\n" ++
    "  --manifest-path MANIFEST_PATH\n" ++
    "                        Path to the project's Cargo.toml (default:\n" ++
    "                        ./Cargo.toml).\n" ++
    "  --culture-checklist-path CULTURE_CHECKLIST_PATH\n" ++
    "                        Checklist of rule descriptions to evaluate, one per\n" ++
    "                        line. When omitted, a `.culture` file is searched for\n" ++
    "                        from the current directory upward.\n" ++
    "  --strict              Treat checklist entries that match no rule as an error\n" ++
    "                        instead of ignoring them.\n" ++
    "  --rules-config RULES_CONFIG\n" ++
    "                        JSON file of per-rule settings keyed by rule id.\n" ++
    "  --json-out JSON_OUT   Also write the run report as JSON to this path.\n" ++
    "  --list-rules          Print the descriptions of every available rule and\n" ++
    "                        exit.\n" ++
    "  -v, --verbose\n"

/-- The name and the time that a report is given. -/
structure Stamp where
  runId : Text
  generatedAt : Text
  deriving DecidableEq, Repr

/-- The line that lists a rule. -/
def listingLine (rule : Rule) : Text :=
  let mark := if isKnown Rule.defaults rule.description then "" else " (optional)"
  rule.description ++ mark ++ "\n"

/-- The list of every rule that a checklist may name. -/
def listing : Text :=
  Rule.available.flatMap listingLine

namespace CheckArguments

/-- The settings that the command asks for. -/
def settings (a : CheckArguments) (h : Host) : Except Failure RuleSettings :=
  match a.settingsFile with
  | some path => (RuleSettings.load h path).mapError .ofSettings
  | none => .ok {}

/-- The checklist that the command asks for, or the nearest one. -/
def chosenChecklist (a : CheckArguments) (h : Host) : Except Failure (Option Path) := do
  match a.checklist with
  | some path =>
    if ← (h.isFile path).mapError .path then return some path
    else .error (.setup (.checklistNotFound path))
  | none => (findChecklist h (.ofText checklistName)).mapError .path

/-- The rules that the command asks for, if it names some. -/
def chosenRules (a : CheckArguments) (h : Host) : Run Failure (Option (List Rule)) := do
  match ← Run.ofExcept (a.chosenChecklist h) with
  | some path => return some (← checklistRules h path a.strict)
  | none => return none

/-- Writes the report if the command asks for it. -/
def saveReport (a : CheckArguments) (h : Host) (stamp : Stamp) (report : Report) :
    Except Failure Host :=
  match a.reportFile with
  | some path =>
    let content := (report.toJson stamp.runId stamp.generatedAt).indented
    (h.withFile path (Text.Utf8.encodeString content)).mapError .path
  | none => .ok h

/-- Does what the command asks for, and ends with the exit code and the host it leaves. -/
def run (a : CheckArguments) (h : Host) (stamp : Stamp) : Run Failure (Nat × Host) := do
  if a.listRules then
    Run.emit (.report listing)
    return (0, h)
  let settings ← Run.ofExcept (a.settings h)
  let rules ← a.chosenRules h
  let report ← check h a.manifest rules { verbose := a.verbose, settings }
  let host ← Run.ofExcept (a.saveReport h stamp report)
  return (report.stats.exitCode, host)

/-- The same with a setup failure printed. -/
def runPrinting (a : CheckArguments) (h : Host) (stamp : Stamp) : Run Failure (Nat × Host) := do
  match ← Run.attempt (a.run h stamp) with
  | .ok (code, host) => return (code, host)
  | .error (.setup f) =>
    Run.emit (.report (f.message h.libraries.wording ++ "\n"))
    return (f.exitCode, h)
  | .error failure => Run.fail failure

/-- The least level of the records that are printed. -/
def logLevel (a : CheckArguments) : LogLevel :=
  if a.verbose then .debug else .warning

end CheckArguments

end ProjectAudit.CommandLine
