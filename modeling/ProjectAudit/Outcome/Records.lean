import ProjectAudit.Outcome.Stats
import ProjectAudit.Settings.Checked

/-!
# Findings and counts as values

A report file holds findings and their counts.  Here both are written as JSON values and read back.
Reading is checked: a finding needs its description and its outcome, and a count that is not there
is zero.
-/

namespace ProjectAudit

open Json

/-- A finding as a value. -/
def Finding.toJson (f : Finding) : Json :=
  .obj [("description", .str f.description), ("outcome", .str f.outcome.name)]

/-- Reads a finding. -/
def Finding.ofJson : Json → Checked Finding :=
  toRecord fun fields =>
    ((Checked.valid Finding.mk).apply (requiredField fields "description" toText)).apply
      (requiredField fields "outcome" (toNamed Outcome.ofName?))

/-- Counts as a value. -/
def Stats.toJson (s : Stats) : Json :=
  .obj [("success_count", .int s.passed), ("fail_count", .int s.failed),
    ("undetermined_count", .int s.undetermined)]

/-- Reads counts. -/
def Stats.ofJson : Json → Checked Stats :=
  toRecord fun fields =>
    (((Checked.valid Stats.mk).apply (optionalField fields "success_count" toInteger 0)).apply
      (optionalField fields "fail_count" toInteger 0)).apply
      (optionalField fields "undetermined_count" toInteger 0)

theorem Finding.ofJson_toJson (f : Finding) : Finding.ofJson f.toJson = .valid f := by
  have h := toNamed_ofString (Outcome.ofName?_name f.outcome)
  have hd : fieldOf? "description" [("description", .str f.description),
      ("outcome", .str f.outcome.name)] = some (.str f.description) := by rfl
  have ho : fieldOf? "outcome" [("description", .str f.description),
      ("outcome", .str f.outcome.name)] = some (.str f.outcome.name) := by rfl
  simp [ofJson, toJson, toRecord, requiredField, hd, ho, h, toText, Checked.under, Checked.apply]

theorem Stats.ofJson_toJson (s : Stats) : Stats.ofJson s.toJson = .valid s := by
  rfl

end ProjectAudit
