/-!
# Texts

A text is a list of code points.  A code point is a character or a surrogate, which is one half of
the pair that stands for a character beyond U+FFFF where texts are made of 16-bit units.  An escape
can name a surrogate that stands alone, so a text that was written with escapes may hold some, and
so may the name of a file whose bytes form no characters.  The contents of files never do.

Texts without surrogates come from `String`, and `ofString` reads them one to one
(`ofString_inj`).  Every operation on texts is a recursion or a library operator on lists.
-/

namespace ProjectAudit

/-- A character, or a surrogate that stands alone. -/
inductive CodePoint
  | char (c : Char)
  | surrogate (offset : Fin 0x800)
  deriving DecidableEq, Repr, Inhabited

namespace CodePoint

instance : Coe Char CodePoint := ⟨char⟩

/-- The number of a code point. -/
def toNat : CodePoint → Nat
  | char c => c.toNat
  | surrogate offset => 0xD800 + offset

/-- The code point of a 16-bit unit. -/
def ofUnit (n : Nat) : CodePoint :=
  if h : 0xD800 ≤ n ∧ n < 0xE000 then surrogate ⟨n - 0xD800, by omega⟩ else char (Char.ofNat n)

/-- The digits `0` to `9`. -/
def isDigit (c : CodePoint) : Bool :=
  48 ≤ c.toNat && c.toNat ≤ 57

/-- The letters `a` to `z` and `A` to `Z`. -/
def isLetter (c : CodePoint) : Bool :=
  (65 ≤ c.toNat && c.toNat ≤ 90) || (97 ≤ c.toNat && c.toNat ≤ 122)

/-- The same with a capital of `A` to `Z` made small. -/
def toLower : CodePoint → CodePoint
  | char c => char c.toLower
  | s => s

/-- The same with a small letter of `a` to `z` made a capital. -/
def toUpper : CodePoint → CodePoint
  | char c => char c.toUpper
  | s => s

/-- A code point is a surrogate. -/
def isSurrogate : CodePoint → Bool
  | char _ => false
  | surrogate _ => true

/-- The character, with the replacement character in the place of a surrogate. -/
def toChar : CodePoint → Char
  | char c => c
  | surrogate _ => '\uFFFD'

end CodePoint

/-- A text. -/
abbrev Text := List CodePoint

namespace Text

/-- The text of the given characters. -/
def ofString (s : String) : Text :=
  s.toList.map .char

instance : Coe String Text := ⟨ofString⟩

/-- The characters of a text, with the replacement character in the place of surrogates. -/
def toStringLossy (t : Text) : String :=
  String.ofList (t.map CodePoint.toChar)

/-- Order by code points, a text after each of its beginnings. -/
def le : Text → Text → Bool
  | [], _ => true
  | _ :: _, [] => false
  | a :: s, b :: t => a.toNat < b.toNat || (a == b && le s t)

/-- A number in decimal digits. -/
def ofInt (n : Int) : Text :=
  toString n

/-- The texts one after the other, with `separator` between any two. -/
def joined (separator : Text) (texts : List Text) : Text :=
  List.intercalate separator texts

theorem ofString_inj {a b : String} : ofString a = ofString b ↔ a = b := by
  rw [ofString, ofString, List.map_inj_right fun _ _ => CodePoint.char.inj, String.toList_inj]

@[simp] theorem ofString_beq (a b : String) : (ofString a == ofString b) = (a == b) := by
  rw [Bool.eq_iff_iff, beq_iff_eq, beq_iff_eq, ofString_inj]

@[simp] theorem ofString_append (a b : String) : ofString (a ++ b) = ofString a ++ ofString b := by
  simp [ofString]

theorem any_isSurrogate_ofString (s : String) :
    (ofString s).any CodePoint.isSurrogate = false := by
  simp [ofString, CodePoint.isSurrogate]

@[simp] theorem toStringLossy_ofString (s : String) : toStringLossy (ofString s) = s := by
  have h : (CodePoint.toChar ∘ CodePoint.char) = id := rfl
  simp [toStringLossy, ofString, h]

end Text

end ProjectAudit
