import ProjectAudit.Outcome.Records
import ProjectAudit.Rules.Rule

/-!
# Evaluating rules

Rules are evaluated one after the other.  The report of each is one line: its description, and the
label of its outcome once that is known.  A rule that ends with a fault, or hands back something
that is no outcome, is undetermined, and the log says so; the rules after it are evaluated all the
same.
-/

namespace ProjectAudit

/-- The outcome of one rule. -/
def Rule.outcome {ε : Type} (rule : Rule) (c : Context) : Run ε Outcome := do
  match ← Run.attempt (rule.evaluate c) with
  | .ok (.outcome o) => return o
  | .ok (.value v) =>
    Run.log .error .evaluation ("Rule " ++ Text.quoted rule.description ++ " returned " ++
      v.quotedText ++ ", not a RuleOutcome")
    return .undetermined
  | .error _ =>
    Run.log .error .evaluation ("Rule " ++ Text.quoted rule.description ++
      " raised instead of returning an outcome")
    return .undetermined

/-- Evaluates one rule and writes its line. -/
def Rule.report {ε : Type} (rule : Rule) (c : Context) : Run ε Finding := do
  Run.emit (.report rule.description)
  let outcome ← rule.outcome c
  Run.emit (.report (" ... " ++ outcome.label ++ "\n"))
  return { description := rule.description, outcome }

/-- Evaluates rules in order. -/
def evaluateRules {ε : Type} (c : Context) : List Rule → Run ε (List Finding)
  | [] => pure []
  | rule :: rules => do
    let finding ← rule.report c
    return finding :: (← evaluateRules c rules)

/-- What a run found. -/
structure Report where
  manifest : Path
  findings : List Finding
  deriving DecidableEq, Repr

/-- The counts of a report. -/
def Report.stats (r : Report) : Stats :=
  .ofFindings r.findings

/-- Evaluates rules, the default ones if none are given, and reports what was found. -/
def runRules {ε : Type} (c : Context) (rules : Option (List Rule)) : Run ε Report := do
  let findings ← evaluateRules c (rules.getD Rule.defaults)
  return { manifest := c.manifest, findings }

/-- A report as a value, with the name and the time of the run. -/
def Report.toJson (r : Report) (runId generatedAt : Text) : Json :=
  .obj [("run_id", .str runId), ("generated_at", .str generatedAt),
    ("manifest_path", .str r.manifest.text),
    ("results", .arr (r.findings.map Finding.toJson)), ("stats", r.stats.toJson)]

end ProjectAudit
