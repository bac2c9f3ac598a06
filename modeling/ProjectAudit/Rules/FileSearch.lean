import ProjectAudit.Files.Search
import ProjectAudit.Rules.Fault

/-!
# Rules that look for a file

A file is looked for in the project directory and then, if the settings say so, in the workspace
root.  The second search is left out where both are one directory, and it can only turn the outcome
into a success.
-/

namespace ProjectAudit.Rules

/-- Whether two paths stand for one directory. -/
def sameDirectory (h : Host) (a b : Path) : Except PathFault Bool := do
  let a ← h.resolve a
  let b ← h.resolve b
  return a == b

/-- Looks for a file in the project directory and the workspace root. -/
def searchProject (c : Context) (pattern : Pattern) (s : Settings.FilePresence) :
    Run RuleFault Outcome := do
  let scan := fun directory => c.host.scan pattern.accepts s.requireNonempty directory
  let outcome ← Context.ask (scan c.projectDirectory)
  if outcome = .success || !s.searchWorkspaceRoot then return outcome
  match c.workspaceDirectory? with
  | none => return outcome
  | some workspace =>
    if ← Context.ask (sameDirectory c.host workspace c.projectDirectory) then return outcome
    else if (← Context.ask (scan workspace)) = .success then
      c.note ("Found a match for " ++ pattern.shown ++ " in workspace root " ++ workspace.text)
      return .success
    else return outcome

/-! ## The patterns -/

/-- Names of contribution guides. -/
def contributing : Pattern :=
  .starting "CONTRIBUTING"

/-- Names of readme files. -/
def readme : Pattern :=
  .starting "README"

/-- Names of licence files, such as `LICENSE-MIT`, `LICENCE.txt` or `COPYING`. -/
def license : Pattern where
  shown := "^(LICEN[CS]E|COPYING)"
  caseless := true
  expr := .seq .textStart (.choice
    (Item.sequence (Pattern.lettersOf "LICEN" ++
      [Item.ofSet false [.letter 'C', .letter 'S'], Item.ofLetter 'E']))
    (Item.sequence (Pattern.lettersOf "COPYING")))

/-- A word that may be missing. -/
def perhaps (word : Text) : Expr :=
  .repeated (Item.sequence (Pattern.lettersOf word)) 0 (some 1) .many

/-- Names of formatter settings. -/
def formatter : Pattern where
  shown := "^\\.?(legacy-)?rustfmt\\.toml$"
  caseless := false
  expr := .seq .textStart (.seq (perhaps ".") (.seq (perhaps "legacy-")
    (.seq (Item.sequence (Pattern.lettersOf "rustfmt.toml")) .textEnd)))

/-! ## The rules -/

/-- A file whose settings are under the given rule id. -/
def hasFile (id : Text) (pattern : Pattern) (absent : Settings.FilePresence) (c : Context) :
    Run RuleFault Outcome := do
  searchProject c pattern (← c.settingsOf id Settings.FilePresence.ofJson absent)

/-- A readme file, with a note where there is none. -/
def hasReadme (id : Text) (c : Context) : Run RuleFault Outcome := do
  let outcome ← hasFile id readme {} c
  if outcome = .failure then
    c.note ("No README file found in " ++ c.projectDirectory.text)
  return outcome

end ProjectAudit.Rules
