import ProjectAudit.Cargo.Metadata
import ProjectAudit.Cargo.Toolchain
import ProjectAudit.Settings.RuleSettings

/-!
# What rules are told

All rules of a run share one context: the manifest, what is known of the project's metadata, the
settings, the host and the toolchain.  A rule cannot change it.

Metadata is of use only when its query succeeded.  A query that failed may carry a value all the
same, which then counts for nothing.
-/

namespace ProjectAudit

/-- What became of the query for metadata. -/
inductive MetadataStatus
  | ok
  /-- The tool ran and rejected the manifest. -/
  | invalid
  /-- The tool could not be run, or what it printed could not be understood. -/
  | unavailable
  deriving DecidableEq, Repr

namespace MetadataStatus

/-- The name of a status. -/
def name : MetadataStatus → String
  | .ok => "OK"
  | .invalid => "INVALID"
  | .unavailable => "UNAVAILABLE"

/-- The status of a given name. -/
def ofName? (s : Text) : Option MetadataStatus :=
  [ok, invalid, unavailable].find? fun k => Text.ofString k.name == s

theorem ofName?_name (k : MetadataStatus) : ofName? k.name = some k := by
  cases k <;> decide

end MetadataStatus

/-- The result of the query for metadata. -/
structure MetadataResult where
  status : MetadataStatus
  metadata : Option Cargo.Metadata := none
  message : Text := []
  deriving DecidableEq, Repr

namespace MetadataResult

/-- The query succeeded. -/
def ofMetadata (m : Cargo.Metadata) : MetadataResult :=
  { status := .ok, metadata := some m }

/-- The metadata, if it is of use. -/
def usable? (r : MetadataResult) : Option Cargo.Metadata :=
  if r.status = .ok then r.metadata else none

end MetadataResult

/-- What rules are told. -/
structure Context where
  manifest : Path
  metadataResult : MetadataResult
  verbose : Bool := false
  settings : RuleSettings := {}
  toolchain : Cargo.Toolchain := {}
  host : Host := {}

namespace Context

/-- The directory of the manifest. -/
def projectDirectory (c : Context) : Path :=
  c.manifest.parent

/-- The metadata, if it is of use. -/
def metadata? (c : Context) : Option Cargo.Metadata :=
  c.metadataResult.usable?

/-- The packages that the metadata names. -/
def packages (c : Context) : List Cargo.Package :=
  match c.metadata? with
  | some m => m.packages
  | none => []

/-- The workspace root that the metadata names. -/
def workspaceDirectory? (c : Context) : Option Path :=
  match c.metadata? with
  | some m => if m.workspaceRoot.isEmpty then none else some (.ofText m.workspaceRoot)
  | none => none

/-- Writes a line beside the report, if more detail is wished for. -/
def note {ε : Type} (c : Context) (message : Text) : Run ε Unit :=
  if c.verbose then Run.emit (.note (message ++ "\n")) else pure ()

end Context

end ProjectAudit
