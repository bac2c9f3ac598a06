import ProjectAudit.Rules.BuiltIn

/-!
# Rules

A rule is a built-in one or one of the user's own.  The latter is described by what it does: it
writes some notes and then comes to an outcome, hands back something that is no outcome, or gives
up.  Only a description that is not empty makes a rule.
-/

namespace ProjectAudit

/-- How a rule of the user's own ends. -/
inductive CustomEnd
  | outcome (o : Outcome)
  | value (v : Json)
  | raise

/-- A rule of the user's own. -/
structure CustomRule where
  description : Text
  notes : List Text := []
  ending : CustomEnd

/-- A rule. -/
inductive Rule
  | builtIn (rule : BuiltIn)
  | custom (rule : CustomRule)

/-- What a rule hands back. -/
inductive Answer
  | outcome (o : Outcome)
  | value (v : Json)

namespace Rule

/-- The description of a rule. -/
def description : Rule → Text
  | .builtIn rule => rule.description
  | .custom rule => rule.description

/-- The id of a rule; rules of the user's own have none. -/
def id : Rule → Text
  | .builtIn rule => rule.id
  | .custom _ => []

/-- Writes notes, one a line. -/
def writeNotes (c : Context) : List Text → Run RuleFault Unit
  | [] => pure ()
  | n :: ns => do
    c.note n
    writeNotes c ns

/-- What a rule hands back in a context. -/
def evaluate (rule : Rule) (c : Context) : Run RuleFault Answer :=
  match rule with
  | .builtIn rule => do return .outcome (← rule.evaluate c)
  | .custom rule => do
    writeNotes c rule.notes
    match rule.ending with
    | .outcome o => return .outcome o
    | .value v => return .value v
    | .raise => Run.fail .raised

/-- The default rules. -/
def defaults : List Rule :=
  BuiltIn.defaults.map .builtIn

/-- The optional rules. -/
def optional : List Rule :=
  BuiltIn.optional.map .builtIn

/-- Every rule that a checklist may name. -/
def available : List Rule :=
  BuiltIn.all.map .builtIn

end Rule

/-- The wording for a rule without a description. -/
def noDescriptionMessage : String := "Rule must define a non-empty description"

/-- A rule of the user's own, unless its description is empty. -/
def CustomRule.toRule? (r : CustomRule) : Option Rule :=
  if r.description.isEmpty then none else some (.custom r)

end ProjectAudit
