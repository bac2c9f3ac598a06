import ProjectAudit.Text.Basic

/-!
# Blanks, trimming and lower case

Two notions of white space meet in this library.  Lines of tool output, checklist entries and
environment values are trimmed by `isBlank`, which holds the four information separators
(U+001C to U+001F) besides the characters of the Unicode property `White_Space`.  Numerals in
settings are trimmed by that property alone, `isSpace`.  So `isSpace c` implies `isBlank c`, and
the two differ exactly on the separators.
-/

namespace ProjectAudit.Text

/-- The information separators, from FILE to UNIT. -/
def isSeparator (c : CodePoint) : Bool :=
  28 ≤ c.toNat && c.toNat ≤ 31

/-- The Unicode property `White_Space`. -/
def isSpace (c : CodePoint) : Bool :=
  let n := c.toNat
  (9 ≤ n && n ≤ 13) || n == 0x20 || n == 0x85 || n == 0xA0 || n == 0x1680 ||
    (0x2000 ≤ n && n ≤ 0x200A) || n == 0x2028 || n == 0x2029 || n == 0x202F || n == 0x205F ||
    n == 0x3000

/-- White space together with the information separators: what trimming takes away. -/
def isBlank (c : CodePoint) : Bool :=
  isSeparator c || isSpace c

/-- The text without the code points of class `p` at its two ends. -/
def trimBy (p : CodePoint → Bool) (s : Text) : Text :=
  ((s.dropWhile p).reverse.dropWhile p).reverse

/-- The text without blanks at its two ends. -/
def trim (s : Text) : Text :=
  trimBy isBlank s

/-- Lower case of one code point, as a text.  Outside ASCII only U+0130 and the Kelvin sign have an
ASCII letter in their lower case; every other code point stands for itself, which decides each
comparison with an ASCII word. -/
def lowerChar (c : CodePoint) : Text :=
  if c.toNat == 0x130 then ['i', '\u0307']
  else if c.toNat == 0x212A then ['k']
  else [c.toLower]

/-- Lower case of a text, as far as comparisons with ASCII words see it. -/
def lower (s : Text) : Text :=
  s.flatMap lowerChar

@[simp] theorem trim_nil : trim [] = [] := rfl

end ProjectAudit.Text
