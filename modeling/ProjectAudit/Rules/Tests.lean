import ProjectAudit.Cargo.TestSummary
import ProjectAudit.Outcome.Basic
import ProjectAudit.Rules.Fault

/-!
# Passing tests

The outcome is decided by the summary of a test run: no test failed, and enough of them passed.  A
run inside a test run does not start another one.
-/

namespace ProjectAudit.Rules

/-- The outcome that a summary comes to. -/
def judgeSummary (s : Settings.Tests) (summary : Cargo.TestSummary) : Outcome :=
  if summary.allPassed && s.minPassed ≤ summary.passed then .success else .failure

/-- The line that tells how many tests ran. -/
def summaryNote (summary : Cargo.TestSummary) : Text :=
  toString summary.ran ++ " tests ran across " ++ toString summary.binaries ++
    " test binaries: " ++ toString summary.passed ++ " passed; " ++ toString summary.failed ++
    " failed."

/-- The outcome that a test run comes to. -/
def judgeTests (c : Context) (s : Settings.Tests) (output : Cargo.Output) :
    Run RuleFault Outcome := do
  match output.stdoutText with
  | .error _ =>
    c.note "Failed to interpret `cargo test` output as utf8 for parsing."
    return .undetermined
  | .ok stdout =>
    match Cargo.TestSummary.ofOutput stdout with
    | .error .countTooLong => Run.fail .countTooLong
    | .error .noSummary =>
      c.note Cargo.TestSummaryError.noSummaryMessage
      if !output.success then
        c.note ("`" ++ output.commandLine ++ "` StdErr: " ++ output.stderrText)
      return .undetermined
    | .ok summary =>
      if Text.isWritable summary.ran then
        c.note (summaryNote summary)
        return judgeSummary s summary
      else Run.fail .countTooLong

/-- Several tests, all of which pass. -/
def passesTests (id : Text) (c : Context) : Run RuleFault Outcome := do
  let s ← c.settingsOf id Settings.Tests.ofJson {}
  if c.host.recursionGuardActive then
    c.note "Already running inside `cargo test` started by culture; not recursing."
    return .undetermined
  match ← Cargo.attemptCall .call (c.toolchain.test c.host c.manifest) with
  | .error e =>
    c.note e.message
    return .undetermined
  | .ok output => judgeTests c s output

end ProjectAudit.Rules
