import ProjectAudit.Json.Basic
import ProjectAudit.Text.Digit
import ProjectAudit.Text.Scan

/-!
# Reading JSON

The reader accepts JSON with three additions, `NaN`, `Infinity` and `-Infinity`.  Of fields with
one name the last counts.  An escape of a surrogate that has no other half stands for itself.

Reading fails for one of three causes, and the first met in the text is reported: a place where
the text is not as it should be, an integer of more than `Text.maxDigits` digits, or values nested
deeper than `maxDepth`.  A place is remembered as the number of code points that remain there, so
no position has to be carried along, and it is turned into a position, a line and a column at the
end.

All recursion is on a fuel that `document` sets to twice the length of the text and some more:
each call of `value`, `items` or `members` that is followed by another one consumes a code point.
-/

namespace ProjectAudit.Json

/-- What a text should have held at some place. -/
inductive Problem
  | expectingValue
  | expectingName
  | expectingColon
  | expectingComma
  | extraData
  | unterminatedString
  | controlCharacter
  | badEscape
  | badUnicodeEscape
  | byteOrderMark
  deriving DecidableEq, Repr

/-- The wording of a problem. -/
def Problem.text : Problem → String
  | .expectingValue => "Expecting value"
  | .expectingName => "Expecting property name enclosed in double quotes"
  | .expectingColon => "Expecting ':' delimiter"
  | .expectingComma => "Expecting ',' delimiter"
  | .extraData => "Extra data"
  | .unterminatedString => "Unterminated string starting at"
  | .controlCharacter => "Invalid control character at"
  | .badEscape => "Invalid \\escape"
  | .badUnicodeEscape => "Invalid \\uXXXX escape"
  | .byteOrderMark => "Unexpected UTF-8 BOM (decode using utf-8-sig)"

/-- A problem and the place where it stands, counted in code points from the start of the text. -/
structure SyntaxError where
  problem : Problem
  position : Nat
  line : Nat
  column : Nat
  deriving DecidableEq, Repr

/-- The wording of a syntax error. -/
def SyntaxError.message (e : SyntaxError) : String :=
  e.problem.text ++ ": line " ++ toString e.line ++ " column " ++ toString e.column ++
    " (char " ++ toString e.position ++ ")"

/-- The bounds that a well-formed text may go beyond. -/
inductive Limit
  | numberLength
  | depth
  deriving DecidableEq, Repr

/-- Why a text could not be read. -/
inductive ReadError
  | malformed (e : SyntaxError)
  | limit (l : Limit)
  deriving DecidableEq, Repr

/-- Why reading stops, before the place is turned into a position. -/
inductive Stop
  | at (problem : Problem) (remaining : Nat)
  | limit (l : Limit)

/-- The greatest depth of nested lists and objects. -/
def maxDepth : Nat := 990

/-- The blanks between tokens. -/
def isGap (c : CodePoint) : Bool :=
  c == .char ' ' || c == .char '\t' || c == .char '\n' || c == .char '\r'

/-- The text after its leading blanks. -/
def skipGap (s : Text) : Text :=
  s.dropWhile isGap

/-! ## Strings -/

/-- The value of a hexadecimal digit. -/
def hexValue? (c : CodePoint) : Option Nat :=
  let n := c.toNat
  if c.isDigit then some (n - 48)
  else if 97 ≤ n && n ≤ 102 then some (n - 87)
  else if 65 ≤ n && n ≤ 70 then some (n - 55)
  else none

/-- The code unit written by four hexadecimal digits. -/
def unit? (a b c d : CodePoint) : Option Nat := do
  return ((← hexValue? a) * 16 + (← hexValue? b)) * 256 + (← hexValue? c) * 16 + (← hexValue? d)

/-- The code point that a letter after a backslash stands for. -/
def escaped? (c : CodePoint) : Option CodePoint :=
  if c = '"' || c = '\\' || c = '/' then some c
  else if c = 'b' then some (.char '\u0008')
  else if c = 'f' then some (.char '\u000C')
  else if c = 'n' then some (.char '\n')
  else if c = 'r' then some (.char '\r')
  else if c = 't' then some (.char '\t')
  else none

/-- The character that two code units form together, when they are a surrogate pair. -/
def ofPair? (high low : Nat) : Option CodePoint :=
  if 0xD800 ≤ high && high ≤ 0xDBFF && 0xDC00 ≤ low && low ≤ 0xDFFF then
    some (.char (Char.ofNat (0x10000 + (high - 0xD800) * 0x400 + (low - 0xDC00))))
  else none

/-- The code point that a code unit forms with the one that the next six code points escape. -/
def pairWith? (high : Nat) (x u a b c d : CodePoint) : Option CodePoint :=
  if x = '\\' ∧ u = 'u' then (unit? a b c d).bind (ofPair? high) else none

/-- The code point before what has been read of a string. -/
def consRead (c : CodePoint) (read : Text × Text) : Text × Text :=
  (c :: read.1, read.2)

/-- Why reading stops inside a string. -/
inductive StringStop
  | unterminated
  | at (problem : Problem) (remaining : Nat)

/-- The rest of a string after its opening quote, and the text after the closing one.  An escape of
a code unit needs a code point after it, and two such escapes are one character when they are a
surrogate pair. -/
def stringRest : Text → Except StringStop (Text × Text)
  | [] => .error .unterminated
  | c :: r =>
    if c = '"' then .ok ([], r)
    else if c = '\\' then
      match r with
      | [] => .error .unterminated
      | e :: r =>
        if e = 'u' then
          match r with
          | a :: b :: c :: d :: x :: r =>
            match unit? a b c d with
            | none => .error (.at .badUnicodeEscape (r.length + 6))
            | some n =>
              match r with
              | u :: a' :: b' :: c' :: d' :: y :: r' =>
                match pairWith? n x u a' b' c' d' with
                | some p => (stringRest (y :: r')).map (consRead p)
                | none =>
                  (stringRest (x :: u :: a' :: b' :: c' :: d' :: y :: r')).map
                    (consRead (.ofUnit n))
              | r => (stringRest (x :: r)).map (consRead (.ofUnit n))
          | r => .error (.at .badUnicodeEscape (r.length + 1))
        else match escaped? e with
        | some e => (stringRest r).map (consRead e)
        | none => .error (.at .badEscape (r.length + 2))
    else if c.toNat < 32 then .error (.at .controlCharacter (r.length + 1))
    else (stringRest r).map (consRead c)
termination_by structural s => s

/-- The string after an opening quote, and the text after the closing one.  A string without an end
is reported at its opening quote. -/
def string (s : Text) : Except Stop (Text × Text) :=
  (stringRest s).mapError fun
    | .unterminated => .at .unterminatedString (s.length + 1)
    | .at problem remaining => .at problem remaining

/-! ## Numbers -/

/-- The leading digits of a text, and the rest. -/
def spanDigits (s : Text) : Text × Text :=
  s.span CodePoint.isDigit

/-- The digits of the whole part: a single zero, or digits that begin with another one. -/
def wholePart? : Text → Option (Text × Text)
  | .char '0' :: r => some (['0'], r)
  | s =>
    let (digits, rest) := spanDigits s
    if digits.isEmpty then none else some (digits, rest)

/-- The digits after a point, when there are some; otherwise the point is no part of the number. -/
def fractionPart : Text → Text × Text
  | .char '.' :: r =>
    let (digits, rest) := spanDigits r
    if digits.isEmpty then ([], .char '.' :: r) else (digits, rest)
  | s => ([], s)

/-- The sign of an exponent. -/
def exponentSign : Text → Bool × Text
  | .char '-' :: r => (true, r)
  | .char '+' :: r => (false, r)
  | s => (false, s)

/-- The exponent, when the letter for it is followed by digits. -/
def exponentPart : Text → Option Int × Text
  | s@(c :: r) =>
    if c = 'e' || c = 'E' then
      let (negative, r) := exponentSign r
      let (digits, rest) := spanDigits r
      if digits.isEmpty then (none, s)
      else
        let n : Int := Text.numeralValue digits
        (some (if negative then -n else n), rest)
    else (none, s)
  | [] => (none, [])

/-- The number at the start of a text, without its sign; `none` when there is none. -/
def unsigned? (negative : Bool) (s : Text) : Option (Except Stop (Json × Text)) := do
  let (whole, rest) ← wholePart? s
  let (fraction, rest) := fractionPart rest
  let (exponent, rest) := exponentPart rest
  return match fraction, exponent with
  | [], none =>
    match Text.boundedNumeral? whole with
    | some n => .ok (.int (if negative then -(n : Int) else n), rest)
    | none => .error (.limit .numberLength)
  | fraction, exponent =>
    let n := Text.numeralValue (whole ++ fraction)
    .ok (.float (.ofDecimal negative n (exponent.getD 0 - fraction.length)), rest)

/-- The words that are values. -/
def words : List (Text × Json) :=
  [("null", .null), ("true", .bool true), ("false", .bool false), ("NaN", .float .nan),
    ("Infinity", .float (.infinite false)), ("-Infinity", .float (.infinite true))]

/-- A word or a number at the start of a text. -/
def atom (s : Text) : Except Stop (Json × Text) :=
  match words.findSome? fun (word, v) => (Text.afterWord? word s).map fun r => (v, r) with
  | some found => .ok found
  | none =>
    let number := match s with
      | .char '-' :: r => unsigned? true r
      | s => unsigned? false s
    number.getD (.error (.at .expectingValue s.length))

/-! ## Values -/

mutual

/-- A value at the start of a text, with room for `depth` more levels of nesting. -/
def value (depth : Nat) : (fuel : Nat) → Text → Except Stop (Json × Text)
  | 0, s => .error (.at .expectingValue s.length)
  | fuel + 1, s =>
    match s with
    | .char '"' :: r => (string r).map fun (cs, r) => (.str cs, r)
    | .char '[' :: r =>
      match depth with
      | 0 => .error (.limit .depth)
      | depth + 1 =>
        match skipGap r with
        | .char ']' :: r => .ok (.arr [], r)
        | r => (items depth fuel r).map fun (vs, r) => (.arr vs, r)
    | .char '\x7b' :: r =>
      match depth with
      | 0 => .error (.limit .depth)
      | depth + 1 =>
        match skipGap r with
        | .char '\x7d' :: r => .ok (.obj [], r)
        | r => (members depth fuel [] r).map fun (fs, r) => (.obj fs, r)
    | s => atom s
termination_by structural fuel => fuel

/-- The items of a list from one item on, and the text after the closing bracket. -/
def items (depth : Nat) : (fuel : Nat) → Text → Except Stop (List Json × Text)
  | 0, s => .error (.at .expectingValue s.length)
  | fuel + 1, s => do
    let (v, r) ← value depth fuel s
    match skipGap r with
    | .char ']' :: r => .ok ([v], r)
    | .char ',' :: r => (items depth fuel (skipGap r)).map fun (vs, r) => (v :: vs, r)
    | r => .error (.at .expectingComma r.length)
termination_by structural fuel => fuel

/-- The fields of an object, those read before it and those from one name on, and the text after
the closing brace. -/
def members (depth : Nat) :
    (fuel : Nat) → List (Text × Json) → Text → Except Stop (List (Text × Json) × Text)
  | 0, _, s => .error (.at .expectingName s.length)
  | fuel + 1, fields, s =>
    match s with
    | .char '"' :: r => do
      let (name, r) ← string r
      match skipGap r with
      | .char ':' :: r =>
        let (v, r) ← value depth fuel (skipGap r)
        let fields := putField name v fields
        match skipGap r with
        | .char '\x7d' :: r => .ok (fields, r)
        | .char ',' :: r => members depth fuel fields (skipGap r)
        | r => .error (.at .expectingComma r.length)
      | r => .error (.at .expectingColon r.length)
    | s => .error (.at .expectingName s.length)
termination_by structural fuel => fuel

end

/-- A text that is one value, with blanks around it. -/
def document (s : Text) : Except Stop Json :=
  match s with
  | .char '\uFEFF' :: _ => .error (.at .byteOrderMark s.length)
  | _ => do
    let (v, r) ← value maxDepth (2 * s.length + 2) (skipGap s)
    let r := skipGap r
    if r.isEmpty then .ok v else .error (.at .extraData r.length)

/-- A problem with its place, in a text of which `remaining` characters are left there. -/
def SyntaxError.ofRemaining (s : Text) (problem : Problem) (remaining : Nat) : SyntaxError :=
  let position := s.length - remaining
  let before := s.take position
  { problem, position
    line := before.count (.char '\n') + 1
    column := (before.reverse.takeWhile (· ≠ .char '\n')).length + 1 }

/-- Reads a JSON text. -/
def read (s : Text) : Except ReadError Json :=
  (document s).mapError fun
    | .at problem remaining => .malformed (.ofRemaining s problem remaining)
    | .limit l => .limit l

end ProjectAudit.Json
