import ProjectAudit.Rules.Build
import ProjectAudit.Rules.ContinuousIntegration
import ProjectAudit.Rules.FileSearch
import ProjectAudit.Rules.Project
import ProjectAudit.Rules.Tests

/-!
# The built-in rules

Ten rules are built in.  Each has an id, under which its settings are found, and a description, by
which checklists name it; both are told apart from those of every other rule.
-/

namespace ProjectAudit

/-- A built-in rule. -/
inductive BuiltIn
  | metadataReadable
  | contributing
  | license
  | readme
  | continuousIntegration
  | buildsCleanly
  | passesTests
  | propertyTesting
  | formatter
  | sourceControl
  deriving DecidableEq, Repr

namespace BuiltIn

/-- The rules of a run that names none, in the order of the report. -/
def defaults : List BuiltIn :=
  [.metadataReadable, .contributing, .license, .readme, .continuousIntegration, .buildsCleanly,
    .passesTests, .propertyTesting]

/-- The rules that are evaluated only when a checklist names them. -/
def optional : List BuiltIn :=
  [.formatter, .sourceControl]

/-- Every rule that a checklist may name. -/
def all : List BuiltIn :=
  defaults ++ optional

/-- The id of a rule. -/
def id : BuiltIn → String
  | .metadataReadable => "CARGO-METADATA-READABLE"
  | .contributing => "HAS-CONTRIBUTING-FILE"
  | .license => "HAS-LICENSE-FILE"
  | .readme => "HAS-README-FILE"
  | .continuousIntegration => "HAS-CONTINUOUS-INTEGRATION-FILE"
  | .buildsCleanly => "BUILDS-CLEANLY-WITHOUT-WARNINGS-OR-ERRORS"
  | .passesTests => "PASSES-MULTIPLE-TESTS"
  | .propertyTesting => "USES-PROPERTY-BASED-TEST-LIBRARY"
  | .formatter => "HAS-RUSTFMT-FILE"
  | .sourceControl => "UNDER-SOURCE-CONTROL"

/-- The description of a rule. -/
def description : BuiltIn → String
  | .metadataReadable => "Should have a well-formed Cargo.toml file readable by `cargo metadata`"
  | .contributing => "Should have a CONTRIBUTING file in the project directory."
  | .license => "Should have a LICENSE file in the project directory."
  | .readme => "Should have a README.md file in the project directory."
  | .continuousIntegration =>
    "Should have a file suggesting the use of a continuous integration system."
  | .buildsCleanly => "Should `cargo clean` and `cargo build` without any warnings or errors."
  | .passesTests => "Project should have multiple tests which pass."
  | .propertyTesting => "Should be making an effort to use property based tests."
  | .formatter => "Should have a rustfmt.toml file in the project directory."
  | .sourceControl => "Should be under source control."

/-- The kind of settings that a rule reads. -/
def settingsKind? : BuiltIn → Option Settings.Kind
  | .metadataReadable => none
  | .contributing | .license | .readme | .formatter => some .filePresence
  | .continuousIntegration => some .continuousIntegration
  | .buildsCleanly => some .build
  | .passesTests => some .tests
  | .propertyTesting => some .propertyTesting
  | .sourceControl => some .sourceControl

/-- The rule of a given id. -/
def ofId? (s : Text) : Option BuiltIn :=
  all.find? fun rule => Text.ofString rule.id == s

/-- What a rule comes to in a context.  An empty formatter file is a valid one, unless the settings
of its rule are given and do not say so. -/
def evaluate (rule : BuiltIn) (c : Context) : Run RuleFault Outcome :=
  match rule with
  | .metadataReadable => Rules.metadataReadable c
  | .contributing => Rules.hasFile rule.id Rules.contributing {} c
  | .license => Rules.hasFile rule.id Rules.license {} c
  | .readme => Rules.hasReadme rule.id c
  | .continuousIntegration => Rules.hasContinuousIntegration rule.id c
  | .buildsCleanly => Rules.buildsCleanly rule.id c
  | .passesTests => Rules.passesTests rule.id c
  | .propertyTesting => Rules.usesPropertyTesting rule.id c
  | .formatter => Rules.hasFile rule.id Rules.formatter { requireNonempty := false } c
  | .sourceControl => Rules.underSourceControl rule.id c

theorem ofId?_id (rule : BuiltIn) : ofId? rule.id = some rule := by
  cases rule <;> simp [ofId?, all, defaults, optional, id]

end BuiltIn

end ProjectAudit
