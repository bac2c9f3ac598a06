import ProjectAudit.Json.Basic
import ProjectAudit.Number.Shortest

/-!
# Writing values as blocks

In the block layout every field and every item begins a line.  A field is written `name: value`; the
fields of an object inside it follow two columns deeper, and the items of a list follow at the same
column, each after a dash.  What stands on one line is a number, a switch, an empty list or object,
or a text.

Texts are written as they are, an empty one as two quotes.  This serves texts that hold no line end
and cannot be taken for something else, such as names, descriptions and patterns.
-/

namespace ProjectAudit.Json

/-- A value that stands on one line. -/
def inline? : Json → Option Text
  | .null => some ↑"null"
  | .bool b => some (if b then ↑"true" else ↑"false")
  | .int n => some (Text.ofInt n)
  | .float x => some ↑(Binary64.plain.text x)
  | .str s => some (if s.isEmpty then ↑"\u0027\u0027" else s)
  | .arr [] => some ↑"[]"
  | .obj [] => some ↑"\x7b\x7d"
  | _ => none

/-- Lines two columns deeper. -/
def deeper (lines : List Text) : List Text :=
  lines.map fun line => "  " ++ line

/-- Lines after a dash. -/
def afterDash : List Text → List Text
  | [] => []
  | line :: lines => ("- " ++ line) :: deeper lines

/-- The lines inside a field, which belong to the given value. -/
def placed (v : Json) (lines : List Text) : List Text :=
  match v with
  | .arr _ => lines
  | _ => deeper lines

mutual

/-- The lines of a value. -/
def blockLines : Json → List Text
  | .arr (v :: vs) => itemLines (v :: vs)
  | .obj (f :: fs) => fieldLines (f :: fs)
  | v => (inline? v).toList

/-- The lines of the items of a list. -/
def itemLines : List Json → List Text
  | [] => []
  | v :: vs => afterDash (blockLines v) ++ itemLines vs

/-- The lines of the fields of an object. -/
def fieldLines : List (Text × Json) → List Text
  | [] => []
  | (name, v) :: fs =>
    (match inline? v with
    | some text => [name ++ ": " ++ text]
    | none => (name ++ ":") :: placed v (blockLines v)) ++ fieldLines fs

end

/-- A value in the block layout. -/
def block (v : Json) : Text :=
  (blockLines v).flatMap fun line => line ++ "\n"

end ProjectAudit.Json
