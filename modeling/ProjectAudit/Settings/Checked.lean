import ProjectAudit.Json.Basic
import ProjectAudit.Text.Blank
import ProjectAudit.Text.Digit

/-!
# Checking values

Settings are read from JSON values, and every issue of a value is reported, each with its place.
`Checked` holds either what was read or all issues; putting two of them together keeps the issues
of both, those of the first in front.

Some conversions are made on the way.  A switch may be given by the numbers 0 and 1 or by one of a
few words in any case, and an integer by a switch, by a number with nothing after its point, or by a
text.  Nothing else becomes a text.  A text that is to be converted must not hold a surrogate.
-/

namespace ProjectAudit

/-- A step from a value to one inside it. -/
inductive PlaceStep
  | field (name : Text)
  | index (n : Nat)
  deriving DecidableEq, Repr

/-- What is wrong with a value. -/
inductive IssueKind
  | boolType
  | boolParsing
  | intType
  | intParsing
  | intParsingSize
  | intFromFloat
  | finiteNumber
  | stringType
  | stringUnicode
  | listType
  | tupleType
  | dictType
  | modelType
  | unknownName
  | missing
  deriving DecidableEq, Repr

/-- The name of a kind of issue. -/
def IssueKind.name : IssueKind → String
  | .boolType => "bool_type"
  | .boolParsing => "bool_parsing"
  | .intType => "int_type"
  | .intParsing => "int_parsing"
  | .intParsingSize => "int_parsing_size"
  | .intFromFloat => "int_from_float"
  | .finiteNumber => "finite_number"
  | .stringType => "string_type"
  | .stringUnicode => "string_unicode"
  | .listType => "list_type"
  | .tupleType => "tuple_type"
  | .dictType => "dict_type"
  | .modelType => "model_type"
  | .unknownName => "enum"
  | .missing => "missing"

/-- An issue and its place. -/
structure Issue where
  place : List PlaceStep
  kind : IssueKind
  deriving DecidableEq, Repr

/-- What was read from a value, or its issues. -/
inductive Checked (α : Type)
  | valid (a : α)
  | invalid (issues : List Issue)
  deriving DecidableEq, Repr

namespace Checked

variable {α β : Type}

/-- The issues, none for a valid value. -/
def issues : Checked α → List Issue
  | .valid _ => []
  | .invalid issues => issues

/-- One issue at the value itself. -/
def issue (kind : IssueKind) : Checked α :=
  .invalid [⟨[], kind⟩]

/-- What was read, changed by a function. -/
def map (f : α → β) : Checked α → Checked β
  | .valid a => .valid (f a)
  | .invalid issues => .invalid issues

/-- A function and its argument put together, with the issues of both. -/
def apply (f : Checked (α → β)) (x : Checked α) : Checked β :=
  match f, x with
  | .valid f, .valid a => .valid (f a)
  | f, x => .invalid (f.issues ++ x.issues)

/-- The same with all places seen from one step further out. -/
def under (step : PlaceStep) : Checked α → Checked α
  | .valid a => .valid a
  | .invalid issues => .invalid (issues.map fun i => { i with place := step :: i.place })

/-- What was read, or the issues as an error. -/
def toExcept : Checked α → Except (List Issue) α
  | .valid a => .ok a
  | .invalid issues => .error issues

/-- Checks items one after the other, the first of which has the given number. -/
def eachFrom (read : Json → Checked α) : (n : Nat) → List Json → Checked (List α)
  | _, [] => .valid []
  | n, v :: vs => (((read v).under (.index n)).map List.cons).apply (eachFrom read (n + 1) vs)

end Checked

namespace Json

open Checked

/-- A text converted, unless it holds a surrogate. -/
def convert {α : Type} (s : Text) (conversion : Text → Checked α) : Checked α :=
  if s.any CodePoint.isSurrogate then issue .stringUnicode else conversion s

/-! ## Switches -/

/-- The words for a switch that is on. -/
def onWords : List Text := ["1", "t", "true", "y", "yes", "on"]

/-- The words for a switch that is off. -/
def offWords : List Text := ["0", "f", "false", "n", "no", "off"]

/-- The bounds of 64-bit integers. -/
def fitsWord (n : Int) : Bool :=
  -0x8000000000000000 ≤ n && n < 0x8000000000000000

/-- A number strictly between the least 64-bit integer and one more than the greatest. -/
def withinWord (n : Int) : Bool :=
  -0x8000000000000000 < n && n < 0x8000000000000000

/-- The switch that a number stands for. -/
def switchOfInt (n : Int) : Checked Bool :=
  if n = 0 then .valid false else if n = 1 then .valid true else issue .boolParsing

/-- Reads a switch. -/
def toSwitch : Json → Checked Bool
  | .bool b => .valid b
  | .str s => convert s fun s =>
    let word := s.map CodePoint.toLower
    if word ∈ onWords then .valid true
    else if word ∈ offWords then .valid false
    else issue .boolParsing
  | .int n => if fitsWord n then switchOfInt n else issue .boolType
  | .float x =>
    match x.toInt? with
    | some n => if withinWord n then switchOfInt n else issue .boolType
    | none => issue .boolType
  | _ => issue .boolType

/-! ## Integers -/

/-- The text has a digit other than zero at its start, after a minus sign at most, and digits beyond
what a numeral may have. -/
def isOverlong (s : Text) : Bool :=
  let digits := (if s.head? = some (.char '-') then s.tail else s).takeWhile CodePoint.isDigit
  digits.length > Text.maxDigits && digits.head? != some (.char '0')

/-- Text that begins with a digit, without the zeros in front and the underscores among them.  They
are left out in front of another digit or a minus sign; in front of a point or at the end the last
of them is kept. -/
def dropLeadingZeros? (s : Text) : Option Text :=
  match s.head?.filter CodePoint.isDigit with
  | none => none
  | some first =>
    if first = '0' then
      let (zeros, rest) := s.span fun c => c == .char '0' || c == .char '_'
      let last := zeros.drop (zeros.length - 1)
      match rest with
      | [] => some last
      | c :: _ =>
        if c = '.' then some (last ++ rest)
        else if c = '-' || c.isDigit then some rest
        else none
    else some s

/-- A numeral without what may stand in front of its digits for nothing: a plus sign, and zeros that
count for nothing.  No other sign stands after a plus sign. -/
def withoutIdleFront? : Text → Option Text
  | .char '+' :: .char '-' :: _ => none
  | .char '+' :: r => dropLeadingZeros? r
  | .char '-' :: r => (dropLeadingZeros? r).map (.char '-' :: ·)
  | s => dropLeadingZeros? s

/-- A numeral without a part after the point that consists of zeros. -/
def dropZeroFraction (s : Text) : Text :=
  let (whole, rest) := s.span (· != CodePoint.char '.')
  match rest with
  | _ :: zeros => if !zeros.isEmpty && zeros.all (· == CodePoint.char '0') then whole else s
  | [] => s

/-- A numeral without underscores, which may stand one at a time and not at the ends. -/
def dropUnderscores (s : Text) : Text :=
  let underscore : CodePoint := '_'
  if s.head? = some underscore || s.getLast? = some underscore ||
      (s.zip s.tail).contains (underscore, underscore) then s
  else s.filter (· != underscore)

/-- Digits without a zero in front that could be left out. -/
def isPlainNumeral (digits : Text) : Bool :=
  !digits.isEmpty && digits.all CodePoint.isDigit &&
    (digits.head? != some (.char '0') || digits.length = 1)

/-- The integer that digits denote, with a minus sign in front of them or not. -/
def plainInteger? (s : Text) : Option Int :=
  let (negative, digits) := match s with
    | .char '-' :: r => (true, r)
    | s => (false, s)
  if isPlainNumeral digits then
    (Text.boundedNumeral? digits).map fun n => if negative then -(n : Int) else n
  else none

/-- The integer that a text denotes. -/
def integerOfText (s : Text) : Checked Int :=
  let s := Text.trimBy Text.isSpace s
  if isOverlong s then issue .intParsingSize
  else
    let numeral? := (withoutIdleFront? s).map fun s => dropUnderscores (dropZeroFraction s)
    match numeral?.bind plainInteger? with
    | some n => .valid n
    | none => issue .intParsing

/-- Reads an integer. -/
def toInteger : Json → Checked Int
  | .int n => .valid n
  | .bool b => .valid (if b then 1 else 0)
  | .float x =>
    match x with
    | .finite _ _ _ =>
      match x.toInt? with
      | some n => if withinWord n then .valid n else issue .intParsingSize
      | none => issue .intFromFloat
    | _ => issue .finiteNumber
  | .str s => convert s integerOfText
  | _ => issue .intType

/-! ## Texts, lists and records -/

/-- Reads a text. -/
def toText : Json → Checked Text
  | .str s => .valid s
  | _ => issue .stringType

/-- Reads a list of texts. -/
def toTexts : Json → Checked (List Text)
  | .arr vs => eachFrom toText 0 vs
  | _ => issue .listType

/-- Reads a fixed list. -/
def toFixedList {α : Type} (read : Json → Checked α) : Json → Checked (List α)
  | .arr vs => eachFrom read 0 vs
  | _ => issue .tupleType

/-- Reads one of several things by its name. -/
def toNamed {α : Type} (ofName? : Text → Option α) : Json → Checked α
  | .str s => convert s fun s =>
    match ofName? s with
    | some a => .valid a
    | none => issue .unknownName
  | _ => issue .unknownName

/-- Reads a record from the fields of an object. -/
def toRecord {α : Type} (read : List (Text × Json) → Checked α) : Json → Checked α
  | .obj fields => read fields
  | _ => issue .modelType

/-- Reads a field, which has a value of its own when it is absent. -/
def optionalField {α : Type} (fields : List (Text × Json)) (name : Text)
    (read : Json → Checked α) (absent : α) : Checked α :=
  match fieldOf? name fields with
  | some v => (read v).under (.field name)
  | none => .valid absent

/-- Reads a field that must be there. -/
def requiredField {α : Type} (fields : List (Text × Json)) (name : Text)
    (read : Json → Checked α) : Checked α :=
  match fieldOf? name fields with
  | some v => (read v).under (.field name)
  | none => (issue .missing).under (.field name)

/-! ## Reading what was written -/

theorem eachFrom_map {α : Type} {read : Json → Checked α} {write : α → Json} :
    ∀ (n : Nat) (as : List α), (∀ a ∈ as, read (write a) = .valid a) →
      eachFrom read n (as.map write) = .valid as
  | _, [], _ => rfl
  | n, a :: as, h => by
    simp [eachFrom, h a, under, Checked.map, eachFrom_map (n + 1) as fun b hb => h b (by simp [hb]),
      apply]

theorem convert_ofString {α : Type} (s : String) (conversion : Text → Checked α) :
    convert s conversion = conversion s := by
  simp [convert, Text.any_isSurrogate_ofString]

theorem toNamed_ofString {α : Type} {ofName? : Text → Option α} {s : String} {a : α}
    (h : ofName? s = some a) : toNamed ofName? (.str s) = .valid a := by
  simp [toNamed, convert_ofString, h]

theorem toFixedList_map {α : Type} {read : Json → Checked α} {write : α → Json}
    (h : ∀ a, read (write a) = .valid a) (as : List α) :
    toFixedList read (.arr (as.map write)) = .valid as :=
  eachFrom_map 0 as fun a _ => h a

theorem toFixedList_strings (texts : List Text) :
    toFixedList toText (.arr (texts.map .str)) = .valid texts :=
  eachFrom_map 0 texts fun _ _ => rfl

end Json

end ProjectAudit
