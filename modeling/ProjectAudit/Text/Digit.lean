import ProjectAudit.Text.Basic

/-!
# Decimal digits

A decimal digit is a character of the Unicode class `Nd`.  The class consists of runs of ten, each
from its zero upward, so a table of the zeros decides membership and gives the value at once.

A numeral is a text of such digits.  Reading one is bounded: a numeral of more than `maxDigits`
digits, leading zeros included, is refused, and so is writing a number with more digits.
-/

namespace ProjectAudit.Text

/-- The zeros of the runs of decimal digits. -/
def digitZeros : List Nat := [
  48, 1632, 1776, 1984, 2406, 2534, 2662, 2790, 2918, 3046, 3174, 3302, 3430, 3558, 3664, 3792,
  3872, 4160, 4240, 6112, 6160, 6470, 6608, 6784, 6800, 6992, 7088, 7232, 7248, 42528, 43216,
  43264, 43472, 43504, 43600, 44016, 65296, 66720, 68912, 69734, 69872, 69942, 70096, 70384,
  70736, 70864, 71248, 71360, 71472, 71904, 72016, 72784, 73040, 73120, 92768, 92864, 93008,
  120782, 120792, 120802, 120812, 120822, 123200, 123632, 125264, 130032]

/-- The value of a decimal digit. -/
def digitValue? (c : CodePoint) : Option Nat :=
  if c.toNat < 128 then
    if c.isDigit then some (c.toNat - 48) else none
  else
    (digitZeros.find? fun z => z ≤ c.toNat && c.toNat < z + 10).map (c.toNat - ·)

/-- Decimal digits of any script. -/
def isDecimal (c : CodePoint) : Bool :=
  (digitValue? c).isSome

/-- The number that a text of digits denotes; a code point that is no digit counts as zero. -/
def numeralValue (s : Text) : Nat :=
  s.foldl (fun n c => 10 * n + (digitValue? c).getD 0) 0

/-- The greatest number of digits that a numeral may have. -/
def maxDigits : Nat := 4300

/-- The number a numeral denotes, unless it is too long. -/
def boundedNumeral? (s : Text) : Option Nat :=
  if s.length ≤ maxDigits then some (numeralValue s) else none

/-- A number that has no more than `maxDigits` digits. -/
def isWritable (n : Nat) : Bool :=
  n < .pow 10 maxDigits

end ProjectAudit.Text
