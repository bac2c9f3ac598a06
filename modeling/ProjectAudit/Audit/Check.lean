import ProjectAudit.Audit.Checklist
import ProjectAudit.Audit.Evaluation

/-!
# Checking a project

A check finds the manifest, asks the tool for the project's metadata, evaluates the rules and closes
the report with a summary.  It starts no process unless the manifest is a file.

Whatever the tool answers about metadata is a result, and the rules decide what to make of it.  Only
a value whose parts are of the wrong shape ends the check, and a call that cannot be handed over.
-/

namespace ProjectAudit

/-- Logs and hands over metadata that cannot be understood. -/
def unusableMetadata (manifest : Path) (reason : Text) : Run Failure MetadataResult := do
  Run.log .warning .check
    ("Could not parse `cargo metadata` output for " ++ manifest.text ++ ": " ++ reason)
  return { status := .unavailable, message := reason }

/-- Asks the tool for the metadata of a project. -/
def queryMetadata (h : Host) (toolchain : Cargo.Toolchain) (manifest : Path) :
    Run Failure MetadataResult := do
  match ← Cargo.attemptCall .ofCall (toolchain.metadata h manifest) with
  | .error e =>
    Run.log .info .check ("Package metadata query unavailable: " ++ e.message)
    return { status := .unavailable, message := e.message }
  | .ok output =>
    if !output.success then
      return { status := .invalid, message := Text.trim output.stderrText }
    match output.stdoutText with
    | .error e => unusableMetadata manifest e.message
    | .ok stdout =>
      match Cargo.Metadata.ofText stdout with
      | .ok metadata => return .ofMetadata metadata
      | .error (.rejected r) => unusableMetadata manifest r.message
      | .error fault => Run.fail (.metadata fault)

/-- What a check is asked to do. -/
structure CheckOptions where
  verbose : Bool := false
  settings : RuleSettings := {}
  /-- The toolchain, that of the host's environment if none is given. -/
  toolchain : Option Cargo.Toolchain := none

/-- Gathers what the rules are told. -/
def gatherContext (h : Host) (manifest : Path) (options : CheckOptions) : Run Failure Context := do
  if !(← Run.ofExcept ((h.isFile manifest).mapError .path)) then
    Run.fail (.setup (.manifestNotFound manifest))
  let manifest ← Run.ofExcept ((h.resolve manifest).mapError .path)
  let toolchain := options.toolchain.getD (.ofHost h)
  let metadataResult ← queryMetadata h toolchain manifest
  let context : Context :=
    { manifest, metadataResult, toolchain, host := h
      verbose := options.verbose, settings := options.settings }
  if !metadataResult.message.isEmpty then context.note metadataResult.message
  return context

/-- Checks a project with the given rules, the default ones if none are given. -/
def check (h : Host) (manifest : Path) (rules : Option (List Rule)) (options : CheckOptions) :
    Run Failure Report := do
  let context ← gatherContext h manifest options
  let report ← runRules context rules
  Run.emit (.report report.stats.summary)
  return report

/-- Checks a project with the default rules. -/
def checkDefault (h : Host) (manifest : Path) (options : CheckOptions) : Run Failure Report :=
  check h manifest none options

/-- Checks a project with the rules that a checklist file asks for. -/
def checkFromChecklist (h : Host) (manifest checklist : Path) (strict : Bool)
    (options : CheckOptions) : Run Failure Report := do
  let rules ← checklistRules h checklist strict
  check h manifest (some rules) options

end ProjectAudit
