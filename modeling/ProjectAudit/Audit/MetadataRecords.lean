import ProjectAudit.Audit.Context
import ProjectAudit.Settings.Checked

/-!
# Results of the metadata query as values

What is known of a project can be kept as a JSON value and handed to a later run.  Only the names of
packages, dependencies and targets and the status of the query have to be there; all other fields
have defaults.
-/

namespace ProjectAudit

open Json

namespace Cargo

/-- A dependency as a value. -/
def Dependency.toJson (d : Dependency) : Json :=
  .obj [("name", .str d.name), ("kind", .str d.kind.name), ("req", .str d.req)]

/-- Reads a dependency. -/
def Dependency.ofJson : Json → Checked Dependency :=
  toRecord fun fields =>
    (((Checked.valid Dependency.mk).apply (requiredField fields "name" toText)).apply
      (optionalField fields "kind" (toNamed DependencyKind.ofName?) .normal)).apply
      (optionalField fields "req" toText [])

/-- A target as a value. -/
def Target.toJson (t : Target) : Json :=
  .obj [("name", .str t.name), ("kinds", .arr (t.kinds.map .str)), ("src_path", .str t.sourcePath)]

/-- Reads a target. -/
def Target.ofJson : Json → Checked Target :=
  toRecord fun fields =>
    (((Checked.valid Target.mk).apply (requiredField fields "name" toText)).apply
      (optionalField fields "kinds" (toFixedList toText) [])).apply
      (optionalField fields "src_path" toText [])

/-- A package as a value. -/
def Package.toJson (p : Package) : Json :=
  .obj [("name", .str p.name), ("version", .str p.version), ("manifest_path", .str p.manifestPath),
    ("dependencies", .arr (p.dependencies.map Dependency.toJson)),
    ("targets", .arr (p.targets.map Target.toJson))]

/-- Reads a package. -/
def Package.ofJson : Json → Checked Package :=
  toRecord fun fields =>
    (((((Checked.valid Package.mk).apply (requiredField fields "name" toText)).apply
      (optionalField fields "version" toText [])).apply
      (optionalField fields "manifest_path" toText [])).apply
      (optionalField fields "dependencies" (toFixedList Dependency.ofJson) [])).apply
      (optionalField fields "targets" (toFixedList Target.ofJson) [])

/-- Metadata as a value. -/
def Metadata.toRecord (m : Metadata) : Json :=
  .obj [("workspace_root", .str m.workspaceRoot),
    ("packages", .arr (m.packages.map Package.toJson)),
    ("workspace_members", .arr (m.members.map .str))]

/-- Reads metadata that was written as a record. -/
def Metadata.ofRecord : Json → Checked Metadata :=
  Json.toRecord fun fields =>
    (((Checked.valid Metadata.mk).apply (optionalField fields "workspace_root" toText [])).apply
      (optionalField fields "packages" (toFixedList Package.ofJson) [])).apply
      (optionalField fields "workspace_members" (toFixedList toText) [])

end Cargo

/-- Reads a value that may be absent. -/
def Json.toOptional {α : Type} (read : Json → Checked α) : Json → Checked (Option α)
  | .null => .valid none
  | v => (read v).map some

namespace MetadataResult

/-- The result of a query as a value. -/
def toJson (r : MetadataResult) : Json :=
  .obj [("status", .str r.status.name),
    ("metadata", (r.metadata.map Cargo.Metadata.toRecord).getD .null), ("message", .str r.message)]

/-- Reads the result of a query. -/
def ofJson : Json → Checked MetadataResult :=
  Json.toRecord fun fields =>
    (((Checked.valid MetadataResult.mk).apply
      (requiredField fields "status" (toNamed MetadataStatus.ofName?))).apply
      (optionalField fields "metadata" (toOptional Cargo.Metadata.ofRecord) none)).apply
      (optionalField fields "message" toText [])

end MetadataResult

/-! ## Reading what was written -/

namespace Cargo

theorem Dependency.ofJson_toJson (d : Dependency) : Dependency.ofJson d.toJson = .valid d := by
  obtain ⟨name, kind, req⟩ := d
  have h := toNamed_ofString (DependencyKind.ofName?_name kind)
  simp [Dependency.ofJson, Dependency.toJson, Json.toRecord, requiredField, optionalField, fieldOf?,
    toText, h, Checked.apply, Checked.under]

theorem Target.ofJson_toJson (t : Target) : Target.ofJson t.toJson = .valid t := by
  obtain ⟨name, kinds, sourcePath⟩ := t
  simp [Target.ofJson, Target.toJson, Json.toRecord, requiredField, optionalField, fieldOf?, toText,
    toFixedList_strings, Checked.apply, Checked.under]

theorem Package.ofJson_toJson (p : Package) : Package.ofJson p.toJson = .valid p := by
  obtain ⟨name, version, manifestPath, dependencies, targets⟩ := p
  simp [Package.ofJson, Package.toJson, Json.toRecord, requiredField, optionalField, fieldOf?,
    toText, toFixedList_map Dependency.ofJson_toJson, toFixedList_map Target.ofJson_toJson,
    Checked.apply, Checked.under]

theorem Metadata.ofRecord_toRecord (m : Metadata) : Metadata.ofRecord m.toRecord = .valid m := by
  obtain ⟨workspaceRoot, packages, members⟩ := m
  simp [Metadata.ofRecord, Metadata.toRecord, Json.toRecord, optionalField, fieldOf?, toText,
    toFixedList_map Package.ofJson_toJson,
    toFixedList_strings, Checked.apply, Checked.under]

end Cargo

theorem MetadataResult.ofJson_toJson (r : MetadataResult) :
    MetadataResult.ofJson r.toJson = .valid r := by
  obtain ⟨status, metadata, message⟩ := r
  have hstatus := toNamed_ofString (MetadataStatus.ofName?_name status)
  cases metadata with
  | none =>
    simp [MetadataResult.ofJson, MetadataResult.toJson, Json.toRecord, requiredField, optionalField,
      fieldOf?, hstatus, toText, toOptional, Checked.apply, Checked.under]
  | some m =>
    have hm : toOptional Cargo.Metadata.ofRecord m.toRecord = .valid (some m) := by
      simp only [toOptional, Cargo.Metadata.toRecord]
      exact congrArg (Checked.map some) (Cargo.Metadata.ofRecord_toRecord m)
    simp [MetadataResult.ofJson, MetadataResult.toJson, Json.toRecord, requiredField, optionalField,
      fieldOf?, hstatus, hm, toText, Checked.apply, Checked.under]

end ProjectAudit
