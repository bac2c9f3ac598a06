import ProjectAudit.Outcome.Basic
import ProjectAudit.Rules.Fault

/-!
# Continuous integration

A project is taken to use continuous integration when one of three kinds of files is there: a file
directly in the searched directory whose name matches the pattern of the settings, a file at one of
the paths they list, or a YAML file directly in their workflow directory.  The kinds are tried in
this order, the project directory before the workspace root; among the names in one directory the
first in code point order counts, so the order in which a directory is listed does not matter.  A
directory that does not let itself be listed has no file of the first and the third kind.
-/

namespace ProjectAudit.Rules

/-- The suffixes of workflow files. -/
def workflowSuffixes : List Text := [".yml", ".yaml"]

/-- The names in ascending order. -/
def ascendingNames (names : List Text) : List Text :=
  names.mergeSort Text.le

/-- The first file in a directory, by name, that is accepted. -/
def firstFile (h : Host) (directory : Path) (accepts : Path → Bool) (nonempty : Bool) :
    Except PathFault (Option Path) := do
  if ← h.isDirectory directory then
    match h.namesIn? directory with
    | some names =>
      return ((ascendingNames names).map directory.child).find? fun p =>
        accepts p && h.filePresent nonempty p
    | none => return none
  else return none

/-- A workflow file, by its suffix. -/
def isWorkflow (p : Path) : Bool :=
  workflowSuffixes.contains (Text.lower p.suffix)

/-- A file that matches the pattern of the settings, directly in a directory.  What the pattern
means is for a library of the host to say. -/
def matchingFile (h : Host) (directory : Path) (s : Settings.ContinuousIntegration) :
    Except RuleFault (Option Path) :=
  if s.fileNamePattern.isEmpty then .ok none
  else do
    let accepts ← (h.libraries.matcher s.fileNamePattern).mapError .pattern
    (firstFile h directory (fun p => accepts p.lastName) s.requireNonempty).mapError .path

/-- The file of a continuous integration system in a directory or below it. -/
def integrationFile (h : Host) (directory : Path) (s : Settings.ContinuousIntegration) :
    Except RuleFault (Option Path) := do
  if let some found ← matchingFile h directory s then return found
  if let some found := h.firstPresent? s.requireNonempty directory s.fileNames then return found
  if s.workflowDirectory.isEmpty then return none
  (firstFile h (directory.child s.workflowDirectory) isWorkflow s.requireNonempty).mapError .path

/-- The first file found in the directories, in order. -/
def integrationFileIn (h : Host) (s : Settings.ContinuousIntegration) :
    List Path → Except RuleFault (Option Path)
  | [] => .ok none
  | directory :: rest => do
    if let some found ← integrationFile h directory s then return found
    integrationFileIn h s rest

/-- The directories to search. -/
def searchDirectories (c : Context) (s : Settings.ContinuousIntegration) : List Path :=
  match c.workspaceDirectory? with
  | some workspace =>
    if s.searchWorkspaceRoot && workspace != c.projectDirectory then
      [c.projectDirectory, workspace]
    else [c.projectDirectory]
  | none => [c.projectDirectory]

/-- A file of a continuous integration system. -/
def hasContinuousIntegration (id : Text) (c : Context) : Run RuleFault Outcome := do
  let s ← c.settingsOf id Settings.ContinuousIntegration.ofJson {}
  if ← Context.ask (c.host.isDirectory c.projectDirectory) then
    match ← Run.ofExcept (integrationFileIn c.host s (searchDirectories c s)) with
    | some found =>
      c.note ("Found continuous integration file " ++ found.text)
      return .success
    | none => return .failure
  else
    c.note ("Project directory " ++ c.projectDirectory.text ++ " is not a directory.")
    return .undetermined

end ProjectAudit.Rules
