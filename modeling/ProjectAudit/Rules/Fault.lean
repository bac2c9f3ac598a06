import ProjectAudit.Audit.Context
import ProjectAudit.Cargo.TestSummary
import ProjectAudit.Pattern.Parser

/-!
# Faults of rules

A rule that meets something it has no answer for ends with a fault.  A run takes a fault for an
undetermined outcome and goes on with the next rule.
-/

namespace ProjectAudit

/-- Why a rule ended without an outcome. -/
inductive RuleFault
  | path (fault : PathFault)
  | settings (issues : List Issue)
  | pattern (e : PatternError)
  | output (l : Json.Limit)
  | countTooLong
  | call (fault : Cargo.StartFault)
  /-- A rule of the user's own gave up. -/
  | raised
  deriving DecidableEq, Repr

namespace Context

/-- The settings of a rule in a context. -/
def settingsOf {α : Type} (c : Context) (id : Text) (read : Json → Checked α) (absent : α) :
    Run RuleFault α :=
  Run.ofExcept ((c.settings.get id read absent).toExcept.mapError .settings)

theorem settingsOf_of_valid {α : Type} {c : Context} {id : Text} {read : Json → Checked α}
    {absent settings : α} (h : c.settings.get id read absent = .valid settings) :
    c.settingsOf id read absent = pure settings := by
  rw [settingsOf, h]
  rfl

/-- The answer to a question about a path. -/
def ask {α : Type} (answer : Except PathFault α) : Run RuleFault α :=
  Run.ofExcept (answer.mapError .path)

/-- A question that has an answer is gone on with. -/
theorem ask_ok_bind {α β : Type} (a : α) (f : α → Run RuleFault β) : (ask (.ok a) >>= f) = f a :=
  rfl

end Context

end ProjectAudit
