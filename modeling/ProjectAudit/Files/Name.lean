import ProjectAudit.Text.Utf8

/-!
# File names

The file system keeps a name as bytes and does not ask what they mean.  A text stands for the bytes
of its UTF-8 form, where the surrogates from U+DC80 on, one for each byte beyond ASCII, stand for
single bytes.  So every sequence of bytes has a text, `decodeName`, and `encodeName` of that text
gives the bytes back; a text with another surrogate is the name of nothing.
-/

namespace ProjectAudit

/-- A name, or a text of several names, as the file system keeps it. -/
abbrev FileName := List UInt8

namespace FileName

/-- The name that stands for the directory it is looked up in. -/
def here : FileName := [46]

/-- The name that stands for the directory above. -/
def above : FileName := [46, 46]

/-- The byte between names. -/
def isSlash (b : UInt8) : Bool :=
  b == 47

/-- A name that moves somewhere. -/
def isProper (n : FileName) : Bool :=
  !n.isEmpty && n != here

end FileName

/-- The pieces of a list between the items of one kind; there is always at least one. -/
def segments {α : Type} (isSlash : α → Bool) : List α → List (List α)
  | [] => [[]]
  | a :: r =>
    if isSlash a then [] :: segments isSlash r
    else match segments isSlash r with
    | [] => [[a]]
    | n :: ns => (a :: n) :: ns

/-- The surrogate that stands for a single byte. -/
def byteEscape (b : UInt8) : CodePoint :=
  .surrogate ⟨0x400 + b.toNat, by have := b.toNat_lt; omega⟩

/-- The bytes that a code point stands for in a name, if it can stand there. -/
def nameBytes? : CodePoint → Option (List UInt8)
  | .char c => some (String.utf8EncodeChar c)
  | .surrogate offset =>
    if 0x480 ≤ offset.val && offset.val < 0x500 then some [UInt8.ofNat (offset - 0x400)] else none

/-- The bytes that a text stands for, which begins at the given position.  The first code point that
can stand in no name is reported with all surrogates that follow it at once. -/
def encodeFrom (position : Nat) : Text → Except Text.Utf8.EncodeError FileName
  | [] => .ok []
  | c :: r =>
    match nameBytes? c with
    | some bytes => (encodeFrom (position + 1) r).map (bytes ++ ·)
    | none => .error ⟨position, ((c :: r).takeWhile CodePoint.isSurrogate).length, c⟩

/-- The bytes that a text stands for as a name. -/
def encodeName (t : Text) : Except Text.Utf8.EncodeError FileName :=
  encodeFrom 0 t

/-- The text that stands for a name. -/
def decodeName (n : FileName) : Text :=
  (Text.Utf8.pieces n).flatMap fun
    | .char c => [.char c]
    | .bad bytes _ => bytes.map byteEscape

end ProjectAudit
