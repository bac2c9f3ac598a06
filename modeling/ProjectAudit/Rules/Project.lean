import ProjectAudit.Outcome.Basic
import ProjectAudit.Rules.Fault

/-!
# Rules about metadata, libraries and source control

Three rules that need one fact each: what became of the query for metadata, which libraries the
packages depend on, and what stands in the directories above the manifest.
-/

namespace ProjectAudit.Rules

/-- The metadata can be read. -/
def metadataReadable (c : Context) : Run RuleFault Outcome := do
  let result := c.metadataResult
  if result.status = .ok then return .success
  if !result.message.isEmpty then c.note result.message
  return if result.status = .invalid then .failure else .undetermined

/-! ## Property based testing -/

/-- The dependencies of a package that count. -/
def countedDependencies (s : Settings.PropertyTesting) (p : Cargo.Package) :
    List Cargo.Dependency :=
  if s.devDependenciesOnly then p.dependenciesOfKind .dev else p.dependencies

/-- Whether a package depends on one of the libraries that a pattern stands for. -/
def usesLibrary (s : Settings.PropertyTesting) (libraries : Pattern) (p : Cargo.Package) : Bool :=
  (countedDependencies s p).any fun d => libraries.accepts d.name

/-- Every package depends on a library for property based tests. -/
def usesPropertyTesting (id : Text) (c : Context) : Run RuleFault Outcome := do
  let s ← c.settingsOf id Settings.PropertyTesting.ofJson {}
  if c.packages.isEmpty then
    c.note "No package metadata available to inspect dependencies."
    return .undetermined
  match s.libraries with
  | [] => return .undetermined
  | library :: others =>
    match c.packages.find? fun p => !usesLibrary s (.startingWithAny library others) p with
    | some p =>
      c.note ("Package " ++ p.name ++ " declares no property based testing library.")
      return .failure
    | none => return .success

/-! ## Source control -/

/-- The first of the names at which there is a directory, seen from a given one. -/
def firstDirectory (h : Host) (above : Path) : List Text → Except PathFault (Option Text)
  | [] => .ok none
  | name :: names => do
    if ← h.isDirectory (above.child name) then return some name
    firstDirectory h above names

/-- The first of the directories with one of the names in it, and that name. -/
def controlDirectory (h : Host) (names : List Text) :
    List Path → Except PathFault (Option (Path × Text))
  | [] => .ok none
  | above :: rest => do
    if let some name ← firstDirectory h above names then return some (above, name)
    controlDirectory h names rest

/-- The project is under source control. -/
def underSourceControl (id : Text) (c : Context) : Run RuleFault Outcome := do
  let s ← c.settingsOf id Settings.SourceControl.ofJson {}
  let manifest ← Context.ask (c.host.resolve c.manifest)
  match ← Context.ask (controlDirectory c.host s.directories manifest.ancestors) with
  | some (above, name) =>
    c.note ("Found " ++ name ++ " in " ++ above.text)
    return .success
  | none => return .failure

end ProjectAudit.Rules
