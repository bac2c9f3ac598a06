import ProjectAudit.Outcome.Basic

/-!
# Counting outcomes

The counts of the three outcomes of a run decide its overall outcome, its exit code and its summary
line.  A failure outweighs an undetermined rule, and a run without rules succeeds.

Counts are integers, since counts may also be given from outside, where nothing keeps them from
being negative.  Two notions of success then part: `isSuccess` asks both counts to be zero, and
`overall` asks neither to be positive.  They agree on the counts of findings.
-/

namespace ProjectAudit

/-- The counts of each outcome in a run. -/
structure Stats where
  passed : Int := 0
  failed : Int := 0
  undetermined : Int := 0
  deriving DecidableEq, Repr

namespace Stats

/-- The number of findings with a given outcome. -/
def count (o : Outcome) (findings : List Finding) : Nat :=
  findings.countP fun f => f.outcome == o

/-- The counts of a list of findings. -/
def ofFindings (findings : List Finding) : Stats where
  passed := count .success findings
  failed := count .failure findings
  undetermined := count .undetermined findings

/-- The number of rules counted. -/
def total (s : Stats) : Int :=
  s.passed + s.failed + s.undetermined

/-- No rule failed and none was left undetermined. -/
def isSuccess (s : Stats) : Bool :=
  s.failed == 0 && s.undetermined == 0

/-- The outcome of the run as a whole. -/
def overall (s : Stats) : Outcome :=
  if s.failed > 0 then .failure
  else if s.undetermined > 0 then .undetermined
  else .success

/-- The exit code of the run. -/
def exitCode (s : Stats) : Nat :=
  s.overall.exitCode

/-- The line that closes a report. -/
def summary (s : Stats) : Text :=
  let conclusion := if s.isSuccess then Outcome.success.label else Outcome.failure.label
  "culture result: " ++ conclusion ++ ". " ++ Text.ofInt s.passed ++ " passed. " ++
    Text.ofInt s.failed ++ " failed. " ++ Text.ofInt s.undetermined ++ " undetermined.\n"

end Stats

end ProjectAudit
