import ProjectAudit.Json.Basic
import ProjectAudit.Number.Shortest
import ProjectAudit.Text.Quoted

/-!
# Writing JSON

Two layouts.  `indented` puts every item and field on a line of its own, two columns deeper for
each level, and `compact` stands on one line.  Both write only ASCII: any other code point is an
escape of its code units.
-/

namespace ProjectAudit.Json

/-- The form of numbers with a fraction or an exponent. -/
def numberFormat : Binary64.Format :=
  { Binary64.plain with nan := "NaN", infinity := "Infinity" }

/-- A code unit as an escape. -/
def unitEscape (n : Nat) : List Char :=
  '\\' :: 'u' :: Text.hexDigits 4 n

/-- The short escape of a code point that has one. -/
def shortEscape? (c : CodePoint) : Option Char :=
  if c = '"' then some '"'
  else if c = '\\' then some '\\'
  else if c = '\n' then some 'n'
  else if c = '\r' then some 'r'
  else if c = '\t' then some 't'
  else if c = '\u000C' then some 'f'
  else if c = '\u0008' then some 'b'
  else none

/-- A code point inside a string. -/
def asciiChar (c : CodePoint) : List Char :=
  match shortEscape? c with
  | some e => ['\\', e]
  | none =>
    let n := c.toNat
    if 32 ≤ n && n < 127 then [c.toChar]
    else if n < 0x10000 then unitEscape n
    else
      let m := n - 0x10000
      unitEscape (0xD800 + m / 0x400) ++ unitEscape (0xDC00 + m % 0x400)

/-- A string in double quotes. -/
def stringLiteral (s : Text) : String :=
  String.ofList ('"' :: (s.flatMap asciiChar ++ ['"']))

/-- A new line at the given depth. -/
def newLine (depth : Nat) : String :=
  String.ofList ('\n' :: List.replicate (2 * depth) ' ')

mutual

/-- A value on lines of its own, at the given depth. -/
def indentedAt (depth : Nat) : Json → String
  | .null => "null"
  | .bool true => "true"
  | .bool false => "false"
  | .int n => toString n
  | .float x => numberFormat.text x
  | .str s => stringLiteral s
  | .arr [] => "[]"
  | .arr (v :: vs) =>
    "[" ++ newLine (depth + 1) ++
      ("," ++ newLine (depth + 1)).intercalate (indentedItems (depth + 1) (v :: vs)) ++
      newLine depth ++ "]"
  | .obj [] => "\x7b\x7d"
  | .obj (f :: fs) =>
    "\x7b" ++ newLine (depth + 1) ++
      ("," ++ newLine (depth + 1)).intercalate (indentedFields (depth + 1) (f :: fs)) ++
      newLine depth ++ "\x7d"

/-- The items of a list. -/
def indentedItems (depth : Nat) : List Json → List String
  | [] => []
  | v :: vs => indentedAt depth v :: indentedItems depth vs

/-- The fields of an object. -/
def indentedFields (depth : Nat) : List (Text × Json) → List String
  | [] => []
  | (name, v) :: fs =>
    (stringLiteral name ++ ": " ++ indentedAt depth v) :: indentedFields depth fs

end

/-- A value on lines of its own. -/
def indented (v : Json) : String :=
  indentedAt 0 v

mutual

/-- A value on one line. -/
def compact : Json → String
  | .null => "null"
  | .bool true => "true"
  | .bool false => "false"
  | .int n => toString n
  | .float x => numberFormat.text x
  | .str s => stringLiteral s
  | .arr vs => "[" ++ ",".intercalate (compactItems vs) ++ "]"
  | .obj fs => "\x7b" ++ ",".intercalate (compactFields fs) ++ "\x7d"

/-- The items of a list. -/
def compactItems : List Json → List String
  | [] => []
  | v :: vs => compact v :: compactItems vs

/-- The fields of an object. -/
def compactFields : List (Text × Json) → List String
  | [] => []
  | (name, v) :: fs => (stringLiteral name ++ ":" ++ compact v) :: compactFields fs

end

mutual

/-- The value with the fields of every object in ascending order of their names. -/
def sortFields : Json → Json
  | .arr vs => .arr (sortItems vs)
  | .obj fs => .obj ((sortEach fs).mergeSort fun a b => Text.le a.1 b.1)
  | v => v

/-- `sortFields` on the items of a list. -/
def sortItems : List Json → List Json
  | [] => []
  | v :: vs => sortFields v :: sortItems vs

/-- `sortFields` on the values of fields. -/
def sortEach : List (Text × Json) → List (Text × Json)
  | [] => []
  | (name, v) :: fs => (name, sortFields v) :: sortEach fs

end

end ProjectAudit.Json
