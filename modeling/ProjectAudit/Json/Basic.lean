import ProjectAudit.Number.Binary64
import ProjectAudit.Text.Basic

/-!
# JSON values

An object keeps its fields in the order in which their names first appeared, one field for each
name; `putField` is the only way in which the reader builds one.  Integers and numbers with a
fraction or an exponent are apart, since the settings and the texts below tell `1` from `1.0`.
-/

namespace ProjectAudit

/-- A JSON value. -/
inductive Json
  | null
  | bool (b : Bool)
  | int (n : Int)
  | float (x : Binary64)
  | str (s : Text)
  | arr (items : List Json)
  | obj (fields : List (Text × Json))
  deriving Inhabited, Repr

namespace Json

/-- The fields with `name` set to `value`: in the place of the field of that name, or at the end. -/
def putField (name : Text) (value : Json) :
    List (Text × Json) → List (Text × Json)
  | [] => [(name, value)]
  | field :: rest =>
    if field.1 = name then (name, value) :: rest else field :: putField name value rest

/-- The field of the given name among `fields`. -/
def fieldOf? (name : Text) (fields : List (Text × Json)) : Option Json :=
  (fields.find? fun field => field.1 == name).map (·.2)

@[simp] theorem fieldOf?_putField_self (name : Text) (value : Json)
    (fields : List (Text × Json)) : fieldOf? name (putField name value fields) = some value := by
  induction fields with
  | nil => simp [putField, fieldOf?]
  | cons field rest ih =>
    by_cases h : field.1 = name
    · simp [putField, fieldOf?, h]
    · simpa [putField, fieldOf?, h] using ih

theorem fieldOf?_putField_of_ne {name other : Text} (hne : other ≠ name) (value : Json)
    (fields : List (Text × Json)) :
    fieldOf? other (putField name value fields) = fieldOf? other fields := by
  induction fields with
  | nil => simp [putField, fieldOf?, Ne.symm hne]
  | cons field rest ih =>
    by_cases h : field.1 = name
    · simp [putField, fieldOf?, h, Ne.symm hne]
    · by_cases h' : field.1 = other
      · simp [putField, fieldOf?, h', hne]
      · simpa [putField, fieldOf?, h, h'] using ih

/-- The field of the given name, of an object. -/
def field? (name : Text) : Json → Option Json
  | .obj fields => fieldOf? name fields
  | _ => none

/-- The value of a field, where an absent field counts as `null`. -/
def get (name : Text) (v : Json) : Json :=
  (v.field? name).getD .null

theorem get_obj {name : Text} {value : Json} {fields : List (Text × Json)}
    (h : fieldOf? name fields = some value) : get name (.obj fields) = value := by
  rw [get, field?, h, Option.getD_some]

/-- Only an object has a field that is not `null`. -/
theorem exists_of_get_eq {name : Text} {v value : Json} (h : v.get name = value)
    (hvalue : value ≠ .null) : ∃ fields, v = .obj fields ∧ fieldOf? name fields = some value := by
  rw [get] at h
  cases hfield : v.field? name with
  | none =>
    rw [hfield] at h
    exact absurd h.symm hvalue
  | some found =>
    rw [hfield] at h
    cases v with
    | obj fields => exact ⟨fields, rfl, hfield.trans (congrArg some h)⟩
    | _ => cases hfield

/-- The values that count as nothing: `null`, `false`, zeros, and empty texts, lists and objects. -/
def isEmptyValue : Json → Bool
  | .null => true
  | .bool b => !b
  | .int n => n == 0
  | .float x => x.isZero
  | .str s => s.isEmpty
  | .arr items => items.isEmpty
  | .obj fields => fields.isEmpty

/-- The text of a string value. -/
def str? : Json → Option Text
  | .str s => some s
  | _ => none

theorem str?_eq_some {v : Json} {s : Text} : v.str? = some s ↔ v = .str s := by
  cases v <;> simp [str?]

end Json

end ProjectAudit
