import ProjectAudit.Text.Printable

/-!
# Quoted text

A text stands in single quotes, or in double quotes when it holds a single quote and no double
one.  The quote in use and the backslash are escaped, and so is every code point that is not
printable: tab, line feed and carriage return by a letter, others by their code point in two, four
or eight hexadecimal digits.
-/

namespace ProjectAudit.Text

/-- The digits of a number in hexadecimal, with leading zeros up to `width` digits. -/
def hexDigits (width n : Nat) : List Char :=
  let ds := Nat.toDigits 16 n
  List.replicate (width - ds.length) '0' ++ ds

/-- A number in hexadecimal, with leading zeros up to `width` digits. -/
def hex (width n : Nat) : Text :=
  (hexDigits width n).map .char

/-- A code point inside a text quoted by `quote`. -/
def quotedChar (quote c : CodePoint) : Text :=
  if c = quote || c = '\\' then ['\\', c]
  else if c = '\t' then ['\\', 't']
  else if c = '\n' then ['\\', 'n']
  else if c = '\r' then ['\\', 'r']
  else if isPrintable c then [c]
  else if c.toNat < 0x100 then '\\' :: 'x' :: hex 2 c.toNat
  else if c.toNat < 0x10000 then '\\' :: 'u' :: hex 4 c.toNat
  else '\\' :: 'U' :: hex 8 c.toNat

/-- The quote that a text is written with. -/
def quoteFor (s : Text) : CodePoint :=
  if s.contains (.char '\'') && !s.contains (.char '"') then '"' else '\''

/-- The text in quotes. -/
def quoted (s : Text) : Text :=
  let q := quoteFor s
  q :: (s.flatMap (quotedChar q) ++ [q])

end ProjectAudit.Text
