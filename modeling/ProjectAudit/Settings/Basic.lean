import ProjectAudit.Settings.Checked

/-!
# Settings of rules

Six kinds of settings, one structure each.  A field that is not mentioned has the default of its
structure, and fields that the structure does not know are passed over.  `Kind` names the kinds, and
its fields describe each of them for the catalog.
-/

namespace ProjectAudit.Settings

/-- Where and how a file is looked for. -/
structure FilePresence where
  /-- Empty files do not count. -/
  requireNonempty : Bool := true
  /-- The workspace root is searched as well. -/
  searchWorkspaceRoot : Bool := true
  deriving DecidableEq, Repr

/-- What counts as a file of a continuous integration system. -/
structure ContinuousIntegration where
  requireNonempty : Bool := false
  searchWorkspaceRoot : Bool := true
  /-- Compared with the names in the searched directory. -/
  fileNamePattern : Text := "^(appveyor|\\.appveyor|\\.drone|\\.gitlab-ci|\\.travis)\\.ya?ml"
  /-- Paths from the searched directory. -/
  fileNames : List Text := [".circleci/config.yml", "azure-pipelines.yml", "Jenkinsfile"]
  /-- A directory whose YAML files count. -/
  workflowDirectory : Text := ".github/workflows"
  deriving DecidableEq, Repr

/-- How the project is built. -/
structure Build where
  cleanBeforeBuild : Bool := true
  deriving DecidableEq, Repr

/-- How many tests are asked for. -/
structure Tests where
  minPassed : Int := 2
  deriving DecidableEq, Repr

/-- Which libraries are for property based tests. -/
structure PropertyTesting where
  libraries : List Text := ["proptest", "quickcheck", "suppositions"]
  /-- Only dependencies of development count. -/
  devDependenciesOnly : Bool := true
  deriving DecidableEq, Repr

/-- Which directories are those of a version control system. -/
structure SourceControl where
  directories : List Text := [".git", ".hg", ".bzr", ".svn", "_darcs"]
  deriving DecidableEq, Repr

open Json

/-- Reads settings of a file search. -/
def FilePresence.ofJson : Json → Checked FilePresence :=
  toRecord fun fields =>
    ((Checked.valid FilePresence.mk).apply
      (optionalField fields "require_nonempty" toSwitch true)).apply
      (optionalField fields "search_workspace_root" toSwitch true)

/-- Reads settings of the search for continuous integration. -/
def ContinuousIntegration.ofJson : Json → Checked ContinuousIntegration :=
  let defaults : ContinuousIntegration := {}
  toRecord fun fields =>
    (((((Checked.valid ContinuousIntegration.mk).apply
      (optionalField fields "require_nonempty" toSwitch defaults.requireNonempty)).apply
      (optionalField fields "search_workspace_root" toSwitch defaults.searchWorkspaceRoot)).apply
      (optionalField fields "file_name_pattern" toText defaults.fileNamePattern)).apply
      (optionalField fields "file_names" toTexts defaults.fileNames)).apply
      (optionalField fields "workflow_dir" toText defaults.workflowDirectory)

/-- Reads settings of the build. -/
def Build.ofJson : Json → Checked Build :=
  toRecord fun fields =>
    (Checked.valid Build.mk).apply (optionalField fields "clean_before_build" toSwitch true)

/-- Reads settings of the tests. -/
def Tests.ofJson : Json → Checked Tests :=
  toRecord fun fields =>
    (Checked.valid Tests.mk).apply (optionalField fields "min_passed" toInteger 2)

/-- Reads settings of property based testing. -/
def PropertyTesting.ofJson : Json → Checked PropertyTesting :=
  let defaults : PropertyTesting := {}
  toRecord fun fields =>
    ((Checked.valid PropertyTesting.mk).apply
      (optionalField fields "libraries" toTexts defaults.libraries)).apply
      (optionalField fields "dev_dependencies_only" toSwitch true)

/-- Reads settings of source control. -/
def SourceControl.ofJson : Json → Checked SourceControl :=
  let defaults : SourceControl := {}
  toRecord fun fields =>
    (Checked.valid SourceControl.mk).apply
      (optionalField fields "vcs_dirs" toTexts defaults.directories)

/-! ## Writing settings -/

/-- A list of texts as a value. -/
def textsJson (texts : List Text) : Json :=
  .arr (texts.map .str)

/-- All fields of the settings. -/
def FilePresence.toJson (s : FilePresence) : Json :=
  .obj [("require_nonempty", .bool s.requireNonempty),
    ("search_workspace_root", .bool s.searchWorkspaceRoot)]

/-- All fields of the settings. -/
def ContinuousIntegration.toJson (s : ContinuousIntegration) : Json :=
  .obj [("require_nonempty", .bool s.requireNonempty),
    ("search_workspace_root", .bool s.searchWorkspaceRoot),
    ("file_name_pattern", .str s.fileNamePattern), ("file_names", textsJson s.fileNames),
    ("workflow_dir", .str s.workflowDirectory)]

/-- All fields of the settings. -/
def Build.toJson (s : Build) : Json :=
  .obj [("clean_before_build", .bool s.cleanBeforeBuild)]

/-- All fields of the settings. -/
def Tests.toJson (s : Tests) : Json :=
  .obj [("min_passed", .int s.minPassed)]

/-- All fields of the settings. -/
def PropertyTesting.toJson (s : PropertyTesting) : Json :=
  .obj [("libraries", textsJson s.libraries),
    ("dev_dependencies_only", .bool s.devDependenciesOnly)]

/-- All fields of the settings. -/
def SourceControl.toJson (s : SourceControl) : Json :=
  .obj [("vcs_dirs", textsJson s.directories)]

/-! ## Describing settings -/

/-- A kind of settings. -/
inductive Kind
  | filePresence
  | continuousIntegration
  | build
  | tests
  | propertyTesting
  | sourceControl
  deriving DecidableEq, Repr

/-- Every kind. -/
def Kind.all : List Kind :=
  [.filePresence, .continuousIntegration, .build, .tests, .propertyTesting, .sourceControl]

/-- The name of a kind. -/
def Kind.name : Kind → String
  | .filePresence => "FilePresenceRuleConfig"
  | .continuousIntegration => "ContinuousIntegrationRuleConfig"
  | .build => "BuildsCleanlyRuleConfig"
  | .tests => "PassesMultipleTestsRuleConfig"
  | .propertyTesting => "UsesPropertyBasedTestLibraryRuleConfig"
  | .sourceControl => "UnderSourceControlRuleConfig"

/-- The kind of a given name. -/
def Kind.ofName? (s : Text) : Option Kind :=
  Kind.all.find? fun k => Text.ofString k.name == s

/-- The default settings of a kind, written with all fields. -/
def Kind.defaults : Kind → Json
  | .filePresence => ({} : FilePresence).toJson
  | .continuousIntegration => ({} : ContinuousIntegration).toJson
  | .build => ({} : Build).toJson
  | .tests => ({} : Tests).toJson
  | .propertyTesting => ({} : PropertyTesting).toJson
  | .sourceControl => ({} : SourceControl).toJson

/-- Checks settings of a kind and writes them with all fields. -/
def Kind.complete (k : Kind) (v : Json) : Checked Json :=
  match k with
  | .filePresence => (FilePresence.ofJson v).map FilePresence.toJson
  | .continuousIntegration => (ContinuousIntegration.ofJson v).map ContinuousIntegration.toJson
  | .build => (Build.ofJson v).map Build.toJson
  | .tests => (Tests.ofJson v).map Tests.toJson
  | .propertyTesting => (PropertyTesting.ofJson v).map PropertyTesting.toJson
  | .sourceControl => (SourceControl.ofJson v).map SourceControl.toJson

end ProjectAudit.Settings
