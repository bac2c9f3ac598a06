import ProjectAudit.Audit.Failure
import ProjectAudit.Audit.Run
import ProjectAudit.Rules.Rule

/-!
# Checklists

A checklist is a text file with one description of a rule on each line.  Lines are trimmed, and
lines of blanks alone are passed over.

`filterRules` keeps the rules that a checklist asks for, in the order in which they stand in the
catalog.  A line that describes no rule is a failure if the checklist is to be followed strictly,
and a warning otherwise.

`findChecklist` looks for the nearest file of the usual name: what it is given if that is a file,
and else one in the directory it begins at or in a directory above.
-/

namespace ProjectAudit

/-- The usual name of a checklist file. -/
def checklistName : Text := ".culture"

/-- The descriptions that a checklist text asks for. -/
def checklistLines (text : Text) : List Text :=
  ((Text.splitNewlines text).map Text.trim).filter fun line => !line.isEmpty

/-- Reads a checklist file. -/
def readChecklist (h : Host) (path : Path) : Except Failure (List Text) :=
  match h.readText Text.Utf8.decodeBlocks path with
  | .ok text => .ok (checklistLines text)
  | .error (.unreadable fault) =>
    if fault.isRefusal then .error (.setup (.checklistUnreadable path fault.message))
    else .error (.path fault)
  | .error (.undecodable e) => .error (.setup (.checklistUnreadable path e.message))

/-- Whether a rule of the catalog has the given description. -/
def isKnown (catalog : List Rule) (description : Text) : Bool :=
  catalog.any fun rule => rule.description == description

theorem isKnown_iff {catalog : List Rule} {description : Text} :
    isKnown catalog description = true ↔ ∃ rule ∈ catalog, rule.description = description := by
  simp [isKnown]

/-- Handles the requests that describe no rule of the catalog, in order. -/
def checkRequests (catalog : List Rule) (strict : Bool) : List Text → Run Failure Unit
  | [] => pure ()
  | description :: rest => do
    if isKnown catalog description then checkRequests catalog strict rest
    else if strict then Run.fail (.setup (.ruleNotFound description))
    else
      Run.log .warning .checklist ("Requested rule not found, ignoring: " ++ description)
      checkRequests catalog strict rest

/-- The rules of the catalog whose descriptions are requested, in the order of the catalog. -/
def filterRules (catalog : List Rule) (requested : List Text) (strict : Bool) :
    Run Failure (List Rule) := do
  checkRequests catalog strict requested
  return catalog.filter fun rule => requested.contains rule.description

/-- The available rules that a checklist file asks for. -/
def checklistRules (h : Host) (path : Path) (strict : Bool) : Run Failure (List Rule) := do
  let requested ← Run.ofExcept (readChecklist h path)
  let rules ← filterRules Rule.available requested strict
  Run.log .debug .check ("Checklist " ++ path.text ++ " selected " ++ toString rules.length ++
    " rule(s)")
  return rules

/-- The first checklist file in the directories. -/
def firstChecklist (h : Host) : List Path → Except PathFault (Option Path)
  | [] => .ok none
  | directory :: rest => do
    let candidate := directory.child checklistName
    if ← h.isFile candidate then return some candidate
    firstChecklist h rest

/-- The nearest checklist file, seen from a path. -/
def findChecklist (h : Host) (start : Path) : Except PathFault (Option Path) := do
  if ← h.isFile start then return some start
  let base := if ← h.isDirectory start then start else start.parent
  let directory ← h.resolve base
  firstChecklist h (if directory.names.isEmpty then [directory]
    else directory :: directory.ancestors)

end ProjectAudit
