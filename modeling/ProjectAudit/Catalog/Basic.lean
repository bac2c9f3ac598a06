import ProjectAudit.Catalog.Schema
import ProjectAudit.Json.Block
import ProjectAudit.Json.Printer
import ProjectAudit.Rules.BuiltIn

/-!
# The catalog of rules

The catalog lists the built-in rules, those of a run that names none in front.  An entry gives the
id and the description of its rule and the schema of the settings that the rule reads.
-/

namespace ProjectAudit

/-- The name of a rule where dashes cannot stand. -/
def BuiltIn.className (rule : BuiltIn) : String :=
  rule.id.map fun c => if c = '-' then '_' else c

/-- Where the rule is said to be defined. -/
def BuiltIn.moduleName (rule : BuiltIn) : String :=
  "culture.rules_engine.rules." ++ rule.className.map Char.toLower

namespace Catalog

/-- What the catalog says of a rule. -/
def entry (rule : BuiltIn) : Json :=
  .obj [("rule_id", .str rule.id), ("description", .str rule.description),
    ("in_default_catalog", .bool (BuiltIn.defaults.contains rule)),
    ("module", .str rule.moduleName), ("class_name", .str rule.className),
    ("config_model", .str ((rule.settingsKind?.map Settings.Kind.name).getD "" : String)),
    ("config_schema", (rule.settingsKind?.map schema).getD (.obj []))]

/-- All entries. -/
def entries : Json :=
  .arr (BuiltIn.all.map entry)

/-- How the catalog is written. -/
inductive Layout
  | block
  | json
  deriving DecidableEq, Repr

/-- The text of the catalog, closed by one line end more than its layout asks for. -/
def text : Layout → Text
  | .block => entries.block ++ "\n"
  | .json => entries.sortFields.indented ++ "\n"

end Catalog

end ProjectAudit
