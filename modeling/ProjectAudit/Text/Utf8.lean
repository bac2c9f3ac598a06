import ProjectAudit.Text.Quoted

/-!
# UTF-8

Bytes are first cut into pieces: well-formed characters, and ill-formed runs that are as long as a
prefix of some well-formed character can be.  The three readings of a byte sequence are three ways
of walking over the pieces.

* `decode` stops at the first ill-formed run and reports where it stands.
* `decodeLossy` puts one replacement character in the place of each run.
* `decodeBlocks` decodes as bytes arrive in blocks, so it counts positions from the first byte that
  the block before left undecoded.  It succeeds with the same characters as `decode`; only the
  position in its report differs.

`encode` is the way back for characters.  A surrogate has no form in UTF-8; `EncodeError` says where
some stand in the way.
-/

namespace ProjectAudit.Text.Utf8

/-- What is wrong with an ill-formed run. -/
inductive Flaw
  /-- No character begins with the byte. -/
  | start
  /-- The byte after the run cannot continue it. -/
  | continuation
  /-- The bytes end before the character does. -/
  | truncated
  deriving DecidableEq, Repr

/-- The wording of a flaw. -/
def Flaw.text : Flaw → String
  | .start => "invalid start byte"
  | .continuation => "invalid continuation byte"
  | .truncated => "unexpected end of data"

/-- A piece of a byte sequence. -/
inductive Piece
  | char (c : Char)
  | bad (bytes : List UInt8) (flaw : Flaw)
  deriving DecidableEq, Repr

/-- What a first byte announces: the number of bytes that follow, the bounds of the first of them,
and the payload bits of the byte itself. -/
structure Lead where
  following : Nat
  least : Nat
  greatest : Nat
  payload : Nat

/-- The announcement of a first byte of two or more. -/
def lead? (b : UInt8) : Option Lead :=
  let n := b.toNat
  if 0xC2 ≤ n && n ≤ 0xDF then some ⟨1, 0x80, 0xBF, n - 0xC0⟩
  else if 0xE0 ≤ n && n ≤ 0xEF then
    some ⟨2, if n = 0xE0 then 0xA0 else 0x80, if n = 0xED then 0x9F else 0xBF, n - 0xE0⟩
  else if 0xF0 ≤ n && n ≤ 0xF4 then
    some ⟨3, if n = 0xF0 then 0x90 else 0x80, if n = 0xF4 then 0x8F else 0xBF, n - 0xF0⟩
  else none

/-- A byte that continues a character. -/
def isTail (b : UInt8) : Bool :=
  0x80 ≤ b.toNat && b.toNat ≤ 0xBF

/-- The payload so far with six more bits. -/
def extend (n : Nat) (b : UInt8) : Nat :=
  n * 64 + (b.toNat - 0x80)

/-- The pieces of a byte sequence, in order. -/
def pieces : List UInt8 → List Piece
  | [] => []
  | b₀ :: r₀ =>
    if b₀.toNat < 0x80 then .char (Char.ofNat b₀.toNat) :: pieces r₀
    else match lead? b₀ with
    | none => .bad [b₀] .start :: pieces r₀
    | some l =>
      match r₀ with
      | [] => [.bad [b₀] .truncated]
      | b₁ :: r₁ =>
        if l.least ≤ b₁.toNat && b₁.toNat ≤ l.greatest then
          let n₁ := extend l.payload b₁
          if l.following = 1 then .char (Char.ofNat n₁) :: pieces r₁
          else match r₁ with
          | [] => [.bad [b₀, b₁] .truncated]
          | b₂ :: r₂ =>
            if isTail b₂ then
              let n₂ := extend n₁ b₂
              if l.following = 2 then .char (Char.ofNat n₂) :: pieces r₂
              else match r₂ with
              | [] => [.bad [b₀, b₁, b₂] .truncated]
              | b₃ :: r₃ =>
                if isTail b₃ then .char (Char.ofNat (extend n₂ b₃)) :: pieces r₃
                else .bad [b₀, b₁, b₂] .continuation :: pieces (b₃ :: r₃)
            else .bad [b₀, b₁] .continuation :: pieces (b₂ :: r₂)
        else .bad [b₀] .continuation :: pieces (b₁ :: r₁)

/-- The bytes of characters. -/
def encode (s : List Char) : List UInt8 :=
  s.flatMap String.utf8EncodeChar

/-- `encode` on packed characters. -/
def encodeString (s : String) : List UInt8 :=
  encode s.toList

/-- Bytes that are no UTF-8: the first ill-formed run and its position. -/
structure DecodeError where
  position : Nat
  bytes : List UInt8
  flaw : Flaw
  deriving DecidableEq, Repr

/-- A byte as two hexadecimal digits. -/
def hexByte (b : UInt8) : String :=
  String.ofList [Nat.digitChar (b.toNat / 16), Nat.digitChar (b.toNat % 16)]

/-- The wording of a decoding failure. -/
def DecodeError.message (e : DecodeError) : String :=
  let place := match e.bytes with
    | [b] => "byte 0x" ++ hexByte b ++ " in position " ++ toString e.position
    | bs => "bytes in position " ++ toString e.position ++ "-" ++
        toString (e.position + bs.length - 1)
  "'utf-8' codec can't decode " ++ place ++ ": " ++ e.flaw.text

/-- The text of the pieces up to the first ill-formed run, which stands `position` bytes on at the
earliest. -/
def textOf (position : Nat) : List Piece → Except DecodeError Text
  | [] => .ok []
  | .char c :: ps => (textOf (position + (String.utf8EncodeChar c).length) ps).map (.char c :: ·)
  | .bad bytes flaw :: _ => .error ⟨position, bytes, flaw⟩

/-- The text that well-formed bytes encode. -/
def decode (bytes : List UInt8) : Except DecodeError Text :=
  textOf 0 (pieces bytes)

/-- The text of any bytes, with one replacement character for each ill-formed run. -/
def decodeLossy (bytes : List UInt8) : Text :=
  (pieces bytes).map fun
    | .char c => .char c
    | .bad _ _ => .char '\uFFFD'

/-! ## Decoding in blocks -/

/-- The bytes at the end of a block that may still become a character, if the pieces left are such
an end: a truncated run, or the first two of the three bytes that would be a surrogate. -/
def unfinished? : List Piece → Option (List UInt8)
  | [.bad bytes .truncated] => some bytes
  | [.bad [a] .continuation, .bad [b] .start] =>
    if a.toNat = 0xED && 0xA0 ≤ b.toNat && b.toNat ≤ 0xBF then some [a, b] else none
  | _ => none

/-- The text of the pieces, and the bytes of a last character that has not ended yet. -/
def partialText (position : Nat) : List Piece → Except DecodeError (Text × List UInt8)
  | [] => .ok ([], [])
  | .char c :: ps =>
    (partialText (position + (String.utf8EncodeChar c).length) ps).map fun (t, rest) =>
      (.char c :: t, rest)
  | .bad bytes flaw :: ps =>
    match unfinished? (.bad bytes flaw :: ps) with
    | some rest => .ok ([], rest)
    | none => .error ⟨position, bytes, flaw⟩

/-- Decodes `blocks`, with the undecoded bytes of the block before in front of each. -/
def decodeBlockList (undecoded : List UInt8) : List (List UInt8) → Except DecodeError Text
  | [] => decode undecoded
  | block :: blocks => do
    let (t, rest) ← partialText 0 (pieces (undecoded ++ block))
    (t ++ ·) <$> decodeBlockList rest blocks

/-- Blocks of `size` bytes, the last of which may be shorter; `fuel` bounds their number. -/
def blocksOf (size : Nat) : (fuel : Nat) → List UInt8 → List (List UInt8)
  | 0, _ => []
  | fuel + 1, bytes =>
    if bytes.isEmpty then [] else bytes.take size :: blocksOf size fuel (bytes.drop size)

/-- The number of bytes that a text file hands over at a time. -/
def blockSize : Nat := 8192

/-- The text of bytes that are decoded in blocks. -/
def decodeBlocks (bytes : List UInt8) : Except DecodeError Text :=
  decodeBlockList [] (blocksOf blockSize bytes.length bytes)

/-! ## Texts without a form in UTF-8 -/

/-- A run of surrogates without a form in UTF-8: its position, its length and the first of them. -/
structure EncodeError where
  position : Nat
  length : Nat
  first : CodePoint
  deriving DecidableEq, Repr

/-- The wording of an encoding failure. -/
def EncodeError.message (e : EncodeError) : Text :=
  let place : Text :=
    if e.length = 1 then
      "character " ++ quoted [e.first] ++ " in position " ++ toString e.position
    else "characters in position " ++ toString e.position ++ "-" ++
      toString (e.position + e.length - 1)
  "'utf-8' codec can't encode " ++ place ++ ": surrogates not allowed"

end ProjectAudit.Text.Utf8
