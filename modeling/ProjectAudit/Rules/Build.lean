import ProjectAudit.Cargo.Diagnostics
import ProjectAudit.Outcome.Basic
import ProjectAudit.Rules.Fault

/-!
# Building cleanly

The project is built after each of its packages is cleaned, since what was built before would hide
warnings.  The first call that cannot be started, or that fails, decides; otherwise the build
decides by its diagnostics.
-/

namespace ProjectAudit.Rules

/-- Cleans the packages of the given names, and stops with an outcome at the first failure. -/
def cleanPackages (c : Context) : List Text → Run RuleFault (Option Outcome)
  | [] => pure none
  | name :: names => do
    match ← Cargo.attemptCall .call (c.toolchain.clean c.host c.manifest name) with
    | .error e =>
      c.note e.message
      return some .undetermined
    | .ok output =>
      if output.success then cleanPackages c names
      else
        c.note ("Could not clean package " ++ name ++ " .")
        return some .failure

/-- Cleans all packages that the metadata names. -/
def cleanProject (c : Context) : Run RuleFault (Option Outcome) := do
  if c.packages.isEmpty then
    c.note "No metadata to discover which packages to clean."
    return none
  cleanPackages c (c.packages.map (·.name))

/-- Writes the diagnostics of a build. -/
def noteDiagnostics (c : Context) : List Cargo.Diagnostic → Run RuleFault Unit
  | [] => pure ()
  | d :: ds => do
    c.note (d.level ++ ": " ++ d.message)
    noteDiagnostics c ds

/-- The outcome that a build comes to. -/
def judgeBuild (c : Context) (output : Cargo.Output) : Run RuleFault Outcome := do
  let line := output.commandLine
  if !output.success then
    c.note ("Build command `" ++ line ++ "` failed")
    c.note ("`" ++ line ++ "` StdErr: " ++ output.stderrText)
    return .failure
  match output.stdoutText with
  | .error e =>
    c.note ("Reading stdout for command `" ++ line ++ "` failed : " ++ e.message)
    return .undetermined
  | .ok stdout =>
    let diagnostics ← Run.ofExcept
      ((Cargo.Diagnostic.collect stdout output.stderrText).mapError .output)
    if diagnostics.isEmpty then return .success
    c.note ("`" ++ line ++ "` reported " ++ toString diagnostics.length ++
      " warning(s) or error(s)")
    noteDiagnostics c diagnostics
    return .failure

/-- Builds the project. -/
def build (c : Context) : Run RuleFault Outcome := do
  match ← Cargo.attemptCall .call (c.toolchain.build c.host c.manifest) with
  | .error e =>
    c.note e.message
    return .undetermined
  | .ok output => judgeBuild c output

/-- A build without warnings and errors. -/
def buildsCleanly (id : Text) (c : Context) : Run RuleFault Outcome := do
  let s ← c.settingsOf id Settings.Build.ofJson {}
  if s.cleanBeforeBuild then
    match ← cleanProject c with
    | some outcome => return outcome
    | none => build c
  else build c

end ProjectAudit.Rules
