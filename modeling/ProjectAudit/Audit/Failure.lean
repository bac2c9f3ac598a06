import ProjectAudit.Cargo.Metadata
import ProjectAudit.Cargo.Toolchain
import ProjectAudit.Settings.RuleSettings

/-!
# Failures of a run

A run can fail before any rule is evaluated.  The failures that its user can mend, by naming another
file or by changing one, are the setup failures: they have a wording and an exit code.  All other
failures come from below and end the run as they are.
-/

namespace ProjectAudit

/-- A failure that the user can mend. -/
inductive SetupFailure
  | manifestNotFound (path : Path)
  | checklistNotFound (path : Path)
  | checklistUnreadable (path : Path) (reason : Text)
  | ruleNotFound (description : Text)
  | settingsUnreadable (path : Path) (reason : Text)
  | settingsInvalid (path : Path) (issues : List Issue)
  deriving DecidableEq, Repr

namespace SetupFailure

/-- The exit code of a run that ends with the failure. -/
def exitCode : SetupFailure → Nat
  | .manifestNotFound _ => 30
  | .checklistNotFound _ | .checklistUnreadable _ _ => 20
  | .ruleNotFound _ => 21
  | .settingsUnreadable _ _ | .settingsInvalid _ _ => 1

/-- The wording of the failure.  What is wrong with a value of the settings is put into words by a
library, whose wording is given. -/
def message (f : SetupFailure) (wording : List Issue → Text := fun _ => []) : Text :=
  match f with
  | .manifestNotFound path => "Could not find the project manifest file, " ++ path.text
  | .checklistNotFound path => "Could not find requested rules checklist file, " ++ path.text
  | .checklistUnreadable path reason =>
    "Could not read the culture checklist file, " ++ path.text ++ ": " ++ reason
  | .ruleNotFound description =>
    "A described rule specified was not in the available set of rules: " ++ description
  | .settingsUnreadable path reason =>
    "Could not read rules configuration file, " ++ path.text ++ ": " ++ reason
  | .settingsInvalid path issues =>
    "Invalid rules configuration file, " ++ path.text ++ wording issues

end SetupFailure

/-- A failure of a run. -/
inductive Failure
  | setup (f : SetupFailure)
  | path (fault : PathFault)
  | metadata (fault : Cargo.Metadata.Fault)
  | undecodable (e : Text.Utf8.DecodeError)
  | limit (l : Json.Limit)

/-- The wording of a failure. -/
def Failure.message : Failure → Text
  | .setup f => f.message
  | .path fault => fault.message
  | .metadata (.rejected r) => r.message
  | .metadata .misshapen => "The metadata holds a value of the wrong shape"
  | .metadata (.limit _) | .limit _ => "A value goes beyond the limits of the reader"
  | .undecodable e => e.message

/-- The failure of a run whose call could not be handed over.  The name of a variable that is
refused counts as one with a NUL character. -/
def Failure.ofCall : Cargo.StartFault → Failure
  | .text fault => .path fault
  | .variableName => .path .nulCharacter

/-- The failure of a run whose settings could not be loaded. -/
def Failure.ofSettings : SettingsFault → Failure
  | .unreadable p reason => .setup (.settingsUnreadable p reason)
  | .invalid p issues => .setup (.settingsInvalid p issues)
  | .path fault => .path fault
  | .undecodable e => .undecodable e
  | .limit l => .limit l

end ProjectAudit
