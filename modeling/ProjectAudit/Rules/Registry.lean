import ProjectAudit.Text.Quoted

/-!
# Registering rules

A registry holds descriptions by rule id, in the order in which they were registered.  It takes an
entry only if neither its id nor its description is empty or taken already, and an entry that it
rejects leaves it as it was.
-/

namespace ProjectAudit

/-- A rule as it is registered. -/
structure RegisteredRule where
  id : Text
  description : Text
  deriving DecidableEq, Repr

/-- The rules registered so far. -/
structure Registry where
  rules : List RegisteredRule := []
  deriving DecidableEq, Repr

/-- Why a registry refuses something. -/
inductive RegistryError
  | noId
  | idTaken (id : Text)
  | noDescription (id : Text)
  | descriptionTaken (description : Text)
  | unknownId (id : Text)
  deriving DecidableEq, Repr

/-- The wording of a refusal. -/
def RegistryError.message : RegistryError → Text
  | .noId => "Rule class missing rule_id"
  | .idTaken id => "Duplicate rule_id registered: " ++ id
  | .noDescription id => "Rule class " ++ id ++ " missing description"
  | .descriptionTaken description => "Duplicate rule description registered: " ++ description
  | .unknownId id => Text.quoted id

namespace Registry

/-- The registry with one more rule. -/
def register (r : Registry) (rule : RegisteredRule) : Except RegistryError Registry :=
  if rule.id.isEmpty then .error .noId
  else if r.rules.any fun other => other.id == rule.id then .error (.idTaken rule.id)
  else if rule.description.isEmpty then .error (.noDescription rule.id)
  else if r.rules.any fun other => other.description == rule.description then
    .error (.descriptionTaken rule.description)
  else .ok ⟨r.rules ++ [rule]⟩

/-- The rule registered under an id. -/
def get (r : Registry) (id : Text) : Except RegistryError RegisteredRule :=
  match r.rules.find? fun rule => rule.id == id with
  | some rule => .ok rule
  | none => .error (.unknownId id)

/-- The rules registered under some ids, in the order of the ids. -/
def create (r : Registry) (ids : List Text) : Except RegistryError (List RegisteredRule) :=
  ids.mapM r.get

end Registry

end ProjectAudit
