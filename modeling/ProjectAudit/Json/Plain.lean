import ProjectAudit.Json.Basic
import ProjectAudit.Number.Shortest
import ProjectAudit.Text.Quoted

/-!
# Values inside texts

Messages and names show a JSON value as text.  A string stands there as it is, any other value as
`quotedText` writes it; inside lists and objects strings are quoted.
-/

namespace ProjectAudit.Json

mutual

/-- The text of a value, strings in quotes. -/
def quotedText : Json → Text
  | .null => "None"
  | .bool true => "True"
  | .bool false => "False"
  | .int n => Text.ofInt n
  | .float x => Binary64.plain.text x
  | .str s => Text.quoted s
  | .arr items => "[" ++ Text.joined ", " (quotedItems items) ++ "]"
  | .obj fields => "\x7b" ++ Text.joined ", " (quotedFields fields) ++ "\x7d"

/-- The texts of the items of a list. -/
def quotedItems : List Json → List Text
  | [] => []
  | v :: vs => quotedText v :: quotedItems vs

/-- The texts of the fields of an object. -/
def quotedFields : List (Text × Json) → List Text
  | [] => []
  | (name, v) :: fields => (Text.quoted name ++ ": " ++ quotedText v) :: quotedFields fields

end

/-- The text of a value, a string as it is. -/
def plainText : Json → Text
  | .str s => s
  | v => v.quotedText

/-- The text of a value, empty for the values that count as nothing. -/
def textOrEmpty (v : Json) : Text :=
  if v.isEmptyValue then "" else v.plainText

end ProjectAudit.Json
