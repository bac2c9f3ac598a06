import ProjectAudit.Text.Digit
import ProjectAudit.Text.Lines
import ProjectAudit.Text.Scan

/-!
# Summaries of test runs

Each test binary prints one line such as `test result: ok. 3 passed; 0 failed; …`.  The summary of
a run adds these lines up.  A binary can fail without a failing test, as when its harness panics;
such a line counts as one failure.

A run without a summary line has no summary, and a count of more digits than a numeral may have
cannot be read.
-/

namespace ProjectAudit.Cargo

/-- What one summary line says. -/
structure BinaryResult where
  ok : Bool
  passed : Text
  failed : Text

/-- Reads a summary line; whatever follows the count of failures is of no account. -/
def BinaryResult.ofLine? (line : Text) : Option BinaryResult := do
  let r ← Text.afterWord? "test result: " line
  let (ok, r) ← match Text.afterWord? "ok" r with
    | some r => some (true, r)
    | none => (Text.afterWord? "FAILED" r).map fun r => (false, r)
  let r ← Text.afterWord? ". " r
  let (passed, r) ← Text.spanSome? Text.isDecimal r
  let r ← Text.afterWord? " passed; " r
  let (failed, r) ← Text.spanSome? Text.isDecimal r
  let _ ← Text.afterWord? " failed;" r
  return { ok, passed, failed }

/-- The counts over all test binaries of a run. -/
structure TestSummary where
  passed : Nat := 0
  failed : Nat := 0
  binaries : Nat := 0
  deriving DecidableEq, Repr

/-- Why a run has no summary. -/
inductive TestSummaryError
  | noSummary
  | countTooLong
  deriving DecidableEq, Repr

/-- The wording for a run without a summary line. -/
def TestSummaryError.noSummaryMessage : String :=
  "No `test result:` summary found in `cargo test` output."

namespace TestSummary

/-- The number of tests that ran. -/
def ran (s : TestSummary) : Nat :=
  s.passed + s.failed

/-- No test failed. -/
def allPassed (s : TestSummary) : Bool :=
  s.failed == 0

/-- The counts of two runs together. -/
def add (a b : TestSummary) : TestSummary :=
  ⟨a.passed + b.passed, a.failed + b.failed, a.binaries + b.binaries⟩

/-- The counts of one binary. -/
def ofBinary (r : BinaryResult) : Except TestSummaryError TestSummary :=
  match Text.boundedNumeral? r.passed, Text.boundedNumeral? r.failed with
  | some passed, some failed =>
    .ok { passed, failed := if !r.ok && failed == 0 then 1 else failed, binaries := 1 }
  | _, _ => .error .countTooLong

/-- The counts of the summary lines in a text, all zero when there is none. -/
def totals (output : Text) : Except TestSummaryError TestSummary :=
  (((Text.splitNewlines output).filterMap BinaryResult.ofLine?).mapM ofBinary).map
    fun summaries => summaries.foldl add {}

/-- The summary of a run from what it printed. -/
def ofOutput (output : Text) : Except TestSummaryError TestSummary := do
  let s ← totals output
  if s.binaries = 0 then .error .noSummary else .ok s

end TestSummary

end ProjectAudit.Cargo
