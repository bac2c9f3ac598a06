import ProjectAudit.Files.Host
import ProjectAudit.Json.Reader
import ProjectAudit.Settings.Basic
import ProjectAudit.Settings.ReadOnly

/-!
# Settings by rule

The settings of a project give an object to each of some rule ids.  They are kept unread, as values
that cannot be changed.  A rule is handed a copy of what was written under its own id when it is
evaluated, so that an object which is not valid for its rule concerns that rule alone.

A file holds them either as they are or as the field `rules` of an object; the presence of that
field decides.  The places of issues are texts without surrogates, whatever a rule id holds.

Entries are frozen all together when a file of them is loaded, as one object.  There is room for
that only up to a depth of nesting, which is less than what can be read.  An entry alone is a level
less, so there is room to thaw each of those that were frozen.
-/

namespace ProjectAudit

/-- Settings for some of the rules, by rule id. -/
structure RuleSettings where
  views : List (Text × List (Text × ReadOnly)) := []

/-- Why settings could not be loaded. -/
inductive SettingsFault
  /-- The file cannot be read, or holds no JSON. -/
  | unreadable (path : Path) (reason : Text)
  /-- The value in the file is not an object of objects. -/
  | invalid (path : Path) (issues : List Issue)
  /-- The path cannot be given to the file system. -/
  | path (fault : PathFault)
  | undecodable (e : Text.Utf8.DecodeError)
  | limit (l : Json.Limit)

namespace RuleSettings

/-- Settings with the given entries. -/
def ofList (entries : List (Text × List (Text × Json))) : RuleSettings :=
  ⟨entries.map fun e => (e.1, Json.readOnlyFields e.2)⟩

/-- The entries as they were written. -/
def entries (s : RuleSettings) : List (Text × List (Text × Json)) :=
  s.views.map fun e => (e.1, ReadOnly.writtenFields e.2)

@[simp] theorem entries_ofList (entries : List (Text × List (Text × Json))) :
    (ofList entries).entries = entries := by
  simp [ofList, RuleSettings.entries, Function.comp_def]

@[simp] theorem ofList_entries (s : RuleSettings) : ofList s.entries = s := by
  simp [ofList, entries, Function.comp_def]

/-- The entry of a rule. -/
def entry? (s : RuleSettings) (id : Text) : Option (List (Text × Json)) :=
  (s.views.find? fun e => e.1 == id).map fun e => ReadOnly.writtenFields e.2

theorem find?_entries (s : RuleSettings) (id : Text) :
    (s.entries.find? fun e => e.1 == id).map (·.2) = s.entry? id := by
  rw [entries, List.find?_map, Option.map_map]
  rfl

/-- The settings of one rule: those of its entry, checked, or the given ones when it has none. -/
def get {α : Type} (s : RuleSettings) (id : Text) (read : Json → Checked α) (absent : α) :
    Checked α :=
  match s.entry? id with
  | some fields => read (.obj fields)
  | none => .valid absent

/-- A rule id in the place of an issue.  Each surrogate is shown as three replacement characters,
one for each byte that would encode it. -/
def placeName (id : Text) : Text :=
  id.flatMap fun
    | .char c => [.char c]
    | .surrogate _ => List.replicate 3 (.char '\uFFFD')

/-- Reads the entries, each of which must be an object. -/
def entriesOf : List (Text × Json) → Checked (List (Text × List (Text × Json)))
  | [] => .valid []
  | (id, v) :: rest =>
    let entry : Checked (Text × List (Text × Json)) :=
      match v with
      | .obj fields => .valid (id, fields)
      | _ => (Checked.issue .dictType).under (.field (placeName id))
    (entry.map List.cons).apply (entriesOf rest)

/-- Reads settings from the object of all entries. -/
def ofEntries : Json → Checked RuleSettings
  | .obj fields => (entriesOf fields).map ofList
  | _ => Checked.issue .dictType

/-- Freezes the entries of settings.  Two levels of the room are those of the object of all entries
and of the entry itself. -/
def freezeViews : List (Text × List (Text × Json)) →
    Except Json.Limit (List (Text × List (Text × ReadOnly)))
  | [] => .ok []
  | (id, fields) :: entries => do
    let view ← Json.freezeFields (ReadOnly.maxDepth - 2) fields
    return (id, view) :: (← freezeViews entries)

/-- Settings with the given entries, if there is room to freeze them. -/
def freeze (entries : List (Text × List (Text × Json))) : Except Json.Limit RuleSettings :=
  (freezeViews entries).map .mk

/-- Reads settings from an object with the field `rules`. -/
def ofJson : Json → Checked RuleSettings :=
  Json.toRecord fun fields => Json.optionalField fields "rules" ofEntries {}

/-- An object without the field `rules`, as the value of that field. -/
def wrapped : Json → Json
  | .obj fields =>
    if (Json.fieldOf? "rules" fields).isSome then .obj fields else .obj [("rules", .obj fields)]
  | v => v

/-- The settings in the file at a path. -/
def load (h : Host) (path : Path) : Except SettingsFault RuleSettings := do
  let text ← (h.readText Text.Utf8.decode path).mapError fun
    | .unreadable fault => if fault.isRefusal then .unreadable path fault.message else .path fault
    | .undecodable e => .undecodable e
  let v ← (Json.read text).mapError fun
    | .malformed e => .unreadable path e.message
    | .limit l => .limit l
  let s ← (ofJson (wrapped v)).toExcept.mapError fun issues => .invalid path issues
  (freeze s.entries).mapError .limit

end RuleSettings

end ProjectAudit
