import ProjectAudit.Pattern.Basic

/-!
# Reading patterns

The notation of patterns: letters stand for themselves, `.` for any character but a line feed, `^`
for the start and `$` for the end of a text, before or after a last line feed; `?`, `*`, `+` and
bounds in braces repeat the piece before them; `|` separates alternatives, parentheses group, and
brackets enclose sets.  A backslash takes the meaning from a sign and gives one to the letters of
categories and of control characters.  A repetition followed by `?` prefers few rounds, one followed
by `+` is possessive.

A brace that opens no bounds is a letter.  A piece that is repeated already, or that matches a
place rather than a character, cannot be repeated.  A group marked by `?:` adds nothing of its own:
its items stand in the sequence around it.  One marked by `?>` keeps the first way to match it.

That is the notation that the rules use for patterns of their own.  A library reads more: the places
`\A`, `\b`, `\B` and `\Z`, characters by their codes or names (`\0`, `\x`, `\u`, `\U`, `\N`),
references back to a group, groups with a name, with flags, with a condition or with a comment, and
what is ahead of or behind a place.  Here those texts are refused, so what a text of the settings
means is not left to this reader: it is for the `matcher` of `Libraries`.
-/

namespace ProjectAudit

/-- What is wrong with the text of a pattern. -/
inductive PatternError
  | nothingToRepeat
  | repeatedTwice
  | boundsReversed
  | boundTooLarge
  | setNotClosed
  | rangeReversed
  | groupNotClosed
  | groupNotOpened
  | unknownGroup
  | unknownEscape
  deriving DecidableEq, Repr

namespace Expr

/-- The meaning of a letter after a backslash. -/
def escape (c : CodePoint) : Except PatternError SetItem :=
  if c = 'd' then .ok (.category .digit false)
  else if c = 'D' then .ok (.category .digit true)
  else if c = 's' then .ok (.category .blank false)
  else if c = 'S' then .ok (.category .blank true)
  else if c = 'w' then .ok (.category .word false)
  else if c = 'W' then .ok (.category .word true)
  else if c = 'a' then .ok (.letter '\x07')
  else if c = 'f' then .ok (.letter '\x0c')
  else if c = 'n' then .ok (.letter '\n')
  else if c = 'r' then .ok (.letter '\r')
  else if c = 't' then .ok (.letter '\t')
  else if c = 'v' then .ok (.letter '\x0b')
  else if c.isLetter || c.isDigit then .error .unknownEscape
  else .ok (.letter c)

/-! ## Sets -/

/-- One member of a set, and the text after it. -/
def setMember : Text → Except PatternError (SetItem × Text)
  | [] => .error .setNotClosed
  | .char '\\' :: [] => .error .unknownEscape
  | .char '\\' :: c :: r => (escape c).map fun member => (member, r)
  | c :: r => .ok (.letter c, r)

/-- The range between two members. -/
def rangeOf : SetItem → SetItem → Except PatternError SetItem
  | .letter least, .letter greatest =>
    if least.toNat ≤ greatest.toNat then .ok (.range least greatest) else .error .rangeReversed
  | _, _ => .error .rangeReversed

/-- The members of a set up to its closing bracket, which does not close an empty set. -/
def setMembers : (fuel : Nat) → List SetItem → Text → Except PatternError (List SetItem × Text)
  | 0, _, _ => .error .setNotClosed
  | fuel + 1, found, s =>
    match s with
    | .char ']' :: r =>
      if found.isEmpty then afterMember fuel found s else .ok (found, r)
    | s => afterMember fuel found s
where
  /-- Takes a member, or a range between two of them. -/
  afterMember (fuel : Nat) (found : List SetItem) (s : Text) :
      Except PatternError (List SetItem × Text) := do
    let (member, r) ← setMember s
    match r with
    | .char '-' :: .char ']' :: r => .ok (found ++ [member, .letter '-'], r)
    | .char '-' :: r =>
      let (last, r) ← setMember r
      setMembers fuel (found ++ [← rangeOf member last]) r
    | r => setMembers fuel (found ++ [member]) r

/-- A set after its opening bracket, and the text after it. -/
def set (s : Text) : Except PatternError (Item × Text) := do
  let (negated, s) := match s with
    | .char '^' :: r => (true, r)
    | s => (false, s)
  let (members, r) ← setMembers (s.length + 1) [] s
  return (Item.ofSet negated members, r)

/-! ## Repetitions -/

/-- Bounds of a repetition, and which rounds it prefers. -/
structure Rounds where
  least : Nat
  most : Option Nat
  preference : Preference

/-- The number that digits stand for, and the text after them; `none` without digits. -/
def bound? (s : Text) : Option Nat × Text :=
  let (digits, r) := s.span CodePoint.isDigit
  (if digits.isEmpty then none else some (Text.numeralValue digits), r)

/-- Bounds of a repetition after an opening brace, when the text there is of that form. -/
def braceBounds? (s : Text) : Option (Nat × Option Nat × Text) :=
  match s with
  | .char '\x7d' :: _ => none
  | _ =>
    let (least, r) := bound? s
    match r with
    | .char ',' :: r =>
      let (most, r) := bound? r
      match r with
      | .char '\x7d' :: r => some (least.getD 0, most, r)
      | _ => none
    | .char '\x7d' :: r => some (least.getD 0, least, r)
    | _ => none

/-- Bounds of a repetition at the start of a text, when there are some. -/
def bounds? : Text → Option (Nat × Option Nat × Text)
  | .char '?' :: r => some (0, some 1, r)
  | .char '*' :: r => some (0, none, r)
  | .char '+' :: r => some (1, none, r)
  | .char '\x7b' :: r => braceBounds? r
  | _ => none

/-- The preference that a mark after the bounds asks for. -/
def preference : Text → Preference × Text
  | .char '?' :: r => (.few, r)
  | .char '+' :: r => (.possessive, r)
  | s => (.many, s)

/-- What repeats the piece before, at the start of a text, when there is something. -/
def rounds? (s : Text) : Option (Rounds × Text) :=
  (bounds? s).map fun (least, most, r) =>
    let (preference, r) := preference r
    ({ least, most, preference }, r)

/-- The number of rounds from which on a bound is refused. -/
def boundLimit : Nat := 4294967295

/-- A part of a sequence that can be repeated as a whole: an item, or a group with its items. -/
inductive Piece
  | item (item : Item)
  | group (items : List Item)

namespace Piece

/-- The items that a piece adds to the sequence around it. -/
def items : Piece → List Item
  | item i => [i]
  | group items => items

/-- The repetition of a piece. -/
def repeated (piece : Piece) (rounds : Rounds) : Piece :=
  .item ⟨.repeated (Item.sequence piece.items) rounds.least rounds.most rounds.preference,
    .repetition⟩

/-- The repetition of a piece, unless it is of a kind that has none. -/
def repeated? (piece : Piece) (rounds : Rounds) : Except PatternError Piece :=
  match piece with
  | .item ⟨_, .place⟩ => .error .nothingToRepeat
  | .item ⟨_, .repetition⟩ => .error .repeatedTwice
  | piece => .ok (piece.repeated rounds)

end Piece

/-- The pieces with the last one repeated; the last one comes first in the list. -/
def repeatLast (rounds : Rounds) (pieces : List Piece) : Except PatternError (List Piece) :=
  if rounds.least ≥ boundLimit || rounds.most.any (· ≥ boundLimit) then .error .boundTooLarge
  else if rounds.most.any (· < rounds.least) then .error .boundsReversed
  else match pieces with
    | [] => .error .nothingToRepeat
    | piece :: before => (piece.repeated? rounds).map (· :: before)

/-! ## Sequences and groups -/

/-- How a group is marked. -/
inductive GroupMark
  | numbered
  | plain
  | atomic

/-- The mark of a group, and its contents with the text after them. -/
def groupMark : Text → Except PatternError (GroupMark × Text)
  | .char '?' :: .char ':' :: r => .ok (.plain, r)
  | .char '?' :: .char '>' :: r => .ok (.atomic, r)
  | .char '?' :: _ => .error .unknownGroup
  | s => .ok (.numbered, s)

/-- The piece for a group with the given contents. -/
def GroupMark.piece (mark : GroupMark) (items : List Item) : Piece :=
  match mark with
  | .numbered => .item ⟨Item.sequence items, .other⟩
  | .plain => .group items
  | .atomic => .item ⟨.repeated (Item.sequence items) 1 (some 1) .possessive, .other⟩

/-- The item for a single code point that is neither a bracket nor a repetition. -/
def single (c : CodePoint) : Item :=
  if c = '^' then ⟨.textStart, .place⟩
  else if c = '$' then ⟨.textEnd, .place⟩
  else if c = '.' then ⟨.anyChar, .test⟩
  else Item.ofLetter c

/-- The items of the pieces, the last of which comes first in the list. -/
def itemsOf (pieces : List Piece) : List Item :=
  (pieces.reverse.map Piece.items).flatten

mutual

/-- The items for alternatives, of which those before are given last first, and the text after
them. -/
def alternatives : (fuel : Nat) → (before : List (List Item)) → Text →
    Except PatternError (List Item × Text)
  | 0, _, _ => .error .groupNotClosed
  | fuel + 1, before, s => do
    let (items, r) ← pieces fuel [] s
    match r with
    | .char '|' :: r => alternatives fuel (items :: before) r
    | r =>
      match (items :: before).reverse with
      | first :: second :: others => .ok (Item.alternatives first (second :: others), r)
      | _ => .ok (items, r)
termination_by structural fuel => fuel

/-- The items of one alternative after the pieces already found, and the text after them. -/
def pieces : (fuel : Nat) → List Piece → Text → Except PatternError (List Item × Text)
  | 0, _, _ => .error .groupNotClosed
  | fuel + 1, found, s =>
    match rounds? s, s with
    | some (rounds, r), _ => do pieces fuel (← repeatLast rounds found) r
    | none, [] => .ok (itemsOf found, [])
    | none, .char '|' :: _ => .ok (itemsOf found, s)
    | none, .char ')' :: _ => .ok (itemsOf found, s)
    | none, .char '(' :: r => do
      let (mark, r) ← groupMark r
      let (items, r) ← alternatives fuel [] r
      match r with
      | .char ')' :: r => pieces fuel (mark.piece items :: found) r
      | _ => .error .groupNotClosed
    | none, .char '[' :: r => do
      let (item, r) ← set r
      pieces fuel (.item item :: found) r
    | none, .char '\\' :: [] => .error .unknownEscape
    | none, .char '\\' :: c :: r => do
      pieces fuel (.item (Item.ofSet false [← escape c]) :: found) r
    | none, c :: r => pieces fuel (.item (single c) :: found) r
termination_by structural fuel => fuel

end

end Expr

/-- The pattern that a text denotes. -/
def Pattern.ofText (caseless : Bool) (text : Text) : Except PatternError Pattern := do
  let (items, r) ← Expr.alternatives (2 * text.length + 2) [] text
  if r.isEmpty then .ok { shown := text, caseless, expr := Item.sequence items }
  else .error .groupNotOpened

end ProjectAudit
