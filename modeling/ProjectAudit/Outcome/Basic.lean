import ProjectAudit.Text.Basic

/-!
# Outcomes of rules

A rule is upheld, violated, or cannot be decided.  An outcome has a name for reports, a label for
the printed lines, and an exit code.
-/

namespace ProjectAudit

/-- What became of a rule. -/
inductive Outcome
  | success
  | failure
  | undetermined
  deriving DecidableEq, Repr, Inhabited

namespace Outcome

/-- Every outcome. -/
def all : List Outcome := [.success, .failure, .undetermined]

/-- The name in reports. -/
def name : Outcome → String
  | .success => "SUCCESS"
  | .failure => "FAILURE"
  | .undetermined => "UNDETERMINED"

/-- The word in printed lines. -/
def label : Outcome → String
  | .success => "ok"
  | .failure => "FAILED"
  | .undetermined => "undetermined"

/-- The exit code of a run that comes to this outcome. -/
def exitCode : Outcome → Nat
  | .success => 0
  | .failure => 1
  | .undetermined => 2

/-- The outcome of a given name. -/
def ofName? (s : Text) : Option Outcome :=
  all.find? fun o => Text.ofString o.name == s

theorem ofName?_name (o : Outcome) : ofName? o.name = some o := by
  cases o <;> decide

end Outcome

/-- A rule's description and what became of the rule. -/
structure Finding where
  description : Text
  outcome : Outcome
  deriving DecidableEq, Repr

/-- The outcome under each description.  A repeated description keeps its first place and its last
outcome. -/
def outcomesByDescription (findings : List Finding) : List (Text × Outcome) :=
  findings.foldl (fun seen f => put f seen) []
where
  /-- Sets the outcome of one description. -/
  put (f : Finding) : List (Text × Outcome) → List (Text × Outcome)
    | [] => [(f.description, f.outcome)]
    | entry :: rest =>
      if entry.1 = f.description then (f.description, f.outcome) :: rest
      else entry :: put f rest

end ProjectAudit
