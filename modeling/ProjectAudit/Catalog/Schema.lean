import ProjectAudit.Settings.Basic

/-!
# Schemas of settings

The catalog describes a kind of settings by a schema: for each field a title, its type, and what the
field is when it is not mentioned.  All of it is read off the default settings, so that a schema
cannot disagree with them.  The default of a list is left out.
-/

namespace ProjectAudit.Catalog

/-- The words of a name, which underscores hold together, each with a capital letter. -/
def titleOf (name : Text) : Text :=
  capitals true name
where
  /-- The rest of a title, at the start of a word or inside one. -/
  capitals : (atStart : Bool) → Text → Text
    | _, [] => []
    | atStart, c :: r =>
      if c = '_' then .char ' ' :: capitals true r
      else (if atStart then c.toUpper else c) :: capitals false r

/-- What a schema says of a field with the given default. -/
def fieldSchema (name : Text) (value : Json) : Json :=
  let title : Text × Json := ("title", .str (titleOf name))
  match value with
  | .bool b => .obj [("default", .bool b), title, ("type", .str "boolean")]
  | .int n => .obj [("default", .int n), title, ("type", .str "integer")]
  | .arr _ => .obj [("items", .obj [("type", .str "string")]), title, ("type", .str "array")]
  | v => .obj [("default", v), title, ("type", .str "string")]

/-- The fields of a kind of settings with their defaults. -/
def fieldsOf (kind : Settings.Kind) : List (Text × Json) :=
  match kind.defaults with
  | .obj fields => fields
  | _ => []

/-- The schema of a kind of settings. -/
def schema (kind : Settings.Kind) : Json :=
  .obj [("properties", .obj ((fieldsOf kind).map fun (name, v) => (name, fieldSchema name v))),
    ("title", .str kind.name), ("type", .str "object")]

end ProjectAudit.Catalog
