import ProjectAudit.Json.Plain
import ProjectAudit.Json.Reader
import ProjectAudit.Text.Blank

/-!
# Package metadata

The part of `cargo metadata` that the rules read: the workspace root, its members, and for each
package its dependencies and targets.

`Metadata.ofJson` keeps the packages whose id is a member, all of them when no member is known, and
does not look at the others.  It goes through the kept packages in order and stops at the first
fault.  A fault is a rejection, which has a wording, when the value is readable but is not metadata;
it is `misshapen` when a list of dependencies, targets or kinds is no sequence, or an id or a
dependency's kind is a list or an object.
-/

namespace ProjectAudit.Cargo

/-- What a package needs a dependency for. -/
inductive DependencyKind
  | normal
  | dev
  | build
  deriving DecidableEq, Repr

namespace DependencyKind

/-- The name of a kind. -/
def name : DependencyKind → String
  | .normal => "normal"
  | .dev => "dev"
  | .build => "build"

/-- The kind of a given name. -/
def ofName? (s : Text) : Option DependencyKind :=
  [normal, dev, build].find? fun k => Text.ofString k.name == s

theorem ofName?_name (k : DependencyKind) : ofName? k.name = some k := by
  cases k <;> decide

end DependencyKind

/-- A dependency of a package. -/
structure Dependency where
  name : Text
  kind : DependencyKind := .normal
  req : Text := []
  deriving DecidableEq, Repr

/-- Something that a package builds. -/
structure Target where
  name : Text
  kinds : List Text := []
  sourcePath : Text := []
  deriving DecidableEq, Repr

/-- A package of the project. -/
structure Package where
  name : Text
  version : Text := []
  manifestPath : Text := []
  dependencies : List Dependency := []
  targets : List Target := []
  deriving DecidableEq, Repr

/-- The dependencies of one kind. -/
def Package.dependenciesOfKind (p : Package) (kind : DependencyKind) : List Dependency :=
  p.dependencies.filter fun d => d.kind == kind

/-- The metadata of a project. -/
structure Metadata where
  workspaceRoot : Text := []
  packages : List Package := []
  members : List Text := []
  deriving DecidableEq, Repr

namespace Metadata

/-- Why a text or a value is no metadata. -/
inductive Rejection
  | notJson (e : Json.SyntaxError)
  | notObject
  | noPackages
  | namelessPackage
  | unknownKind (kind : Json) (dependency : Text)

/-- The wording of a rejection. -/
def Rejection.message : Rejection → Text
  | .notJson e => "`cargo metadata` output is not JSON: " ++ e.message
  | .notObject => "`cargo metadata` payload must be a JSON object."
  | .noPackages => "`cargo metadata` payload is missing a `packages` list."
  | .namelessPackage => "Package entry without a name in `cargo metadata` payload."
  | .unknownKind kind dependency =>
    "Unknown dependency kind " ++ kind.quotedText ++ " for " ++ dependency ++ "."

/-- Why metadata could not be read. -/
inductive Fault
  | rejected (r : Rejection)
  | misshapen
  | limit (l : Json.Limit)

/-- A string that is not made of blanks alone. -/
def nonBlank? (v : Json) : Option Text :=
  v.str?.filter fun s => !(Text.trim s).isEmpty

/-- The values that a sequence hands out: items of a list, code points of a string, names of
an object; nothing for a value that counts as nothing. -/
def sequence (v : Json) : Except Fault (List Json) :=
  if v.isEmptyValue then .ok []
  else match v with
    | .arr items => .ok items
    | .str s => .ok (s.map fun c => .str [c])
    | .obj fields => .ok (fields.map fun field => .str field.1)
    | _ => .error .misshapen

/-- A value that is neither a list nor an object. -/
def isScalar : Json → Bool
  | .arr _ | .obj _ => false
  | _ => true

/-- The kind of a dependency; an absent kind is a normal one. -/
def kindOf (kind : Json) (dependency : Text) : Except Fault DependencyKind :=
  match kind with
  | .null => .ok .normal
  | .str s =>
    match DependencyKind.ofName? s with
    | some k => .ok k
    | none => .error (.rejected (.unknownKind kind dependency))
  | kind =>
    if isScalar kind then .error (.rejected (.unknownKind kind dependency))
    else .error .misshapen

/-- The dependency that an entry describes; an entry without a name describes none. -/
def dependencyOf? (entry : Json) : Except Fault (Option Dependency) :=
  match (entry.get "name").str? with
  | none => .ok none
  | some name => do
    let kind ← kindOf (entry.get "kind") name
    return some { name, kind, req := (entry.get "req").textOrEmpty }

/-- The target that an entry describes; an entry without a name describes none. -/
def targetOf? (entry : Json) : Except Fault (Option Target) :=
  match (entry.get "name").str? with
  | none => .ok none
  | some name => do
    let kinds ← sequence (entry.get "kind")
    return some { name, kinds := kinds.map Json.plainText
                  sourcePath := (entry.get "src_path").textOrEmpty }

/-- The package that an entry describes. -/
def packageOf (entry : Json) : Except Fault Package := do
  let some name := nonBlank? (entry.get "name") | .error (.rejected .namelessPackage)
  let dependencies ← (← sequence (entry.get "dependencies")).mapM dependencyOf?
  let targets ← (← sequence (entry.get "targets")).mapM targetOf?
  return {
    name
    version := (entry.get "version").textOrEmpty
    manifestPath := (entry.get "manifest_path").textOrEmpty
    dependencies := dependencies.filterMap id
    targets := targets.filterMap id }

/-- The member ids of a workspace, as they are listed. -/
def memberIds : Json → List Text
  | .arr items => items.filterMap Json.str?
  | _ => []

/-- Whether an entry is a package of the workspace with the given members. -/
def isSelected (members : List Text) (entry : Json) : Except Fault Bool :=
  match entry with
  | .obj _ =>
    if members.isEmpty then .ok true
    else
      let id := entry.get "id"
      if isScalar id then .ok ((id.str?.map members.contains).getD false)
      else .error .misshapen
  | _ => .ok false

/-- The packages among the entries that belong to the workspace. -/
def packagesOf (members : List Text) : List Json → Except Fault (List Package)
  | [] => .ok []
  | entry :: entries => do
    if ← isSelected members entry then
      let package ← packageOf entry
      return package :: (← packagesOf members entries)
    else packagesOf members entries

/-- The texts in ascending order, each once. -/
def ascending (names : List Text) : List Text :=
  names.eraseDups.mergeSort Text.le

/-- The metadata that a value holds. -/
def ofJson (v : Json) : Except Fault Metadata :=
  match v with
  | .obj fields =>
    match Json.fieldOf? "packages" fields with
    | some (.arr entries) => do
      let members := memberIds (v.get "workspace_members")
      let packages ← packagesOf members entries
      return { workspaceRoot := (v.get "workspace_root").textOrEmpty
               packages, members := ascending members }
    | _ => .error (.rejected .noPackages)
  | _ => .error (.rejected .notObject)

/-- The metadata that a text holds. -/
def ofText (s : Text) : Except Fault Metadata :=
  match Json.read s with
  | .ok v => ofJson v
  | .error (.malformed e) => .error (.rejected (.notJson e))
  | .error (.limit l) => .error (.limit l)

end Metadata

end ProjectAudit.Cargo
