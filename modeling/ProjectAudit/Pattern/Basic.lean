import ProjectAudit.Text.Blank
import ProjectAudit.Text.Caseless
import ProjectAudit.Text.Digit
import ProjectAudit.Text.Word

/-!
# Patterns of file names

A pattern is matched against the start of a name.  An expression can match in several ways, which
it prefers in an order: the first alternative before the second, and more rounds of a repetition
before fewer, or fewer before more if it is a reluctant one.  `Expr.attempt` tries them in that
order.  It is given what has to match behind the expression, and takes the first way for which that
succeeds.

A possessive repetition keeps the first way that it finds: each of its rounds takes the way it
prefers, and nothing behind it makes it try another one.  Without such repetitions the order does
not matter for whether a name matches.

A place in a name is the text that remains there.  A round that takes nothing leads nowhere new, so
a repetition needs no more than one further round for each remaining code point.  This bounds the
rounds and makes the recursion structural.

Case is either observed throughout a pattern or disregarded throughout.  Disregarding it, a set
compares its members with the small letter of what it is asked about.  It knows the small letter of
a member only up to U+FFFF: a capital beyond that covers nothing, unless it stands in a range or is
the only member.  Alternatives that are one set each are read as one set, so this holds for them
too.
-/

namespace ProjectAudit

/-- A class of characters with a letter of its own. -/
inductive Category
  | digit
  | blank
  | word
  deriving DecidableEq, Repr

/-- The code points of a category. -/
def Category.holds : Category → CodePoint → Bool
  | .digit, c => Text.isDecimal c
  | .blank, c => Text.isBlank c
  | .word, c => Text.isWord c

/-- A member of a set of characters. -/
inductive SetItem
  | letter (c : CodePoint)
  | range (least greatest : CodePoint)
  | category (k : Category) (negated : Bool)
  deriving DecidableEq, Repr

/-- Whether a single letter of a set covers a code point without regard to case. -/
def coversCaseless (letter c : CodePoint) : Bool :=
  if letter.toNat ≤ 0xFFFF then Text.sameLetter letter c else Text.caselessKey c == letter.toNat

/-- Whether an item of a set covers a code point. -/
def SetItem.covers (caseless : Bool) : SetItem → CodePoint → Bool
  | .letter l, c => if caseless then coversCaseless l c else l == c
  | .range least greatest, c =>
    if caseless then
      (Text.caselessClass c).any fun n => least.toNat ≤ n && n ≤ greatest.toNat
    else least.toNat ≤ c.toNat && c.toNat ≤ greatest.toNat
  | .category k negated, c => k.holds c != negated

/-- Whether a set with the given members covers a code point.  A letter that is alone is compared
with both cases known. -/
def coveredBy (caseless : Bool) : List SetItem → CodePoint → Bool
  | [.letter l], c => if caseless then Text.sameLetter l c else l == c
  | members, c => members.any fun member => member.covers caseless c

/-- Which rounds a repetition prefers. -/
inductive Preference
  | many
  | few
  /-- As many as there are, and no others. -/
  | possessive
  deriving DecidableEq, Repr

/-- An expression for texts. -/
inductive Expr
  | empty
  | textStart
  | textEnd
  | anyChar
  | oneOf (negated : Bool) (members : List SetItem)
  | seq (first second : Expr)
  | choice (first second : Expr)
  | repeated (e : Expr) (least : Nat) (most : Option Nat) (preference : Preference)
  deriving DecidableEq, Repr

/-- A way to match at a place: given what has to match behind it, it ends where that ends. -/
abbrev Way := (Text → Option Text) → Text → Option Text

namespace Way

/-- One code point that satisfies a condition. -/
def one (p : CodePoint → Bool) : Way
  | _, [] => none
  | next, c :: r => if p c then next r else none

/-- Exactly `n` rounds.  Behind a round that takes nothing no more rounds are asked for than there
are code points, since rounds that take nothing can be left out. -/
def rounds (round : Way) : (n : Nat) → Way
  | 0, next, s => next s
  | n + 1, next, s =>
    round (fun r =>
      if r = s ∧ s.length < n then counted s.length next r else rounds round n next r) s
where
  /-- Exactly `n` rounds, one by one. -/
  counted : (n : Nat) → Way
    | 0, next, s => next s
    | n + 1, next, s => round (counted n next) s

/-- At most `n` rounds, more of them preferred. -/
def many (round : Way) : (n : Nat) → Way
  | 0, next, s => next s
  | n + 1, next, s =>
    round (fun r => if r = s then next r else many round n next r) s <|> next s

/-- At most `n` rounds, fewer of them preferred. -/
def few (round : Way) : (n : Nat) → Way
  | 0, next, s => next s
  | n + 1, next, s =>
    next s <|> round (fun r => if r = s then none else few round n next r) s

/-- The place after exactly `n` rounds, each in the way that it prefers. -/
def keptRounds? (round : Way) : (n : Nat) → Text → Option Text
  | 0, s => some s
  | n + 1, s =>
    match round some s with
    | some r => if r = s then some s else keptRounds? round n r
    | none => none

/-- The place after at most `n` rounds and as many as there are, each in the way that it prefers. -/
def kept (round : Way) : (n : Nat) → Text → Text
  | 0, s => s
  | n + 1, s =>
    match round some s with
    | some r => if r = s then s else kept round n r
    | none => s

end Way

namespace Expr

/-- The number of rounds beyond the least that can lead somewhere new. -/
def furtherRounds (least : Nat) (most : Option Nat) (s : Text) : Nat :=
  match most with
  | none => s.length
  | some m => min (m - least) s.length

/-- Matches an expression in a name of `total` code points and then what has to match behind it. -/
def attempt (caseless : Bool) (total : Nat) : Expr → Way
  | .empty, next, s => next s
  | .textStart, next, s => if s.length = total then next s else none
  | .textEnd, next, s => if s = [] ∨ s = "\n" then next s else none
  | .anyChar, next, s => Way.one (· != CodePoint.char '\n') next s
  | .oneOf negated members, next, s =>
    Way.one (fun c => coveredBy caseless members c != negated) next s
  | .seq first second, next, s =>
    attempt caseless total first (attempt caseless total second next) s
  | .choice first second, next, s =>
    attempt caseless total first next s <|> attempt caseless total second next s
  | .repeated e least most preference, next, s =>
    let round := attempt caseless total e
    let further := furtherRounds least most s
    match preference with
    | .many => Way.rounds round least (Way.many round further next) s
    | .few => Way.rounds round least (Way.few round further next) s
    | .possessive => (Way.keptRounds? round least s).bind fun r => next (Way.kept round further r)

end Expr

/-! ## Alternatives -/

/-- What an item of a sequence is. -/
inductive ItemKind
  /-- It matches a place. -/
  | place
  /-- It is a test of one code point. -/
  | test
  | repetition
  | other
  deriving DecidableEq, Repr

/-- An item of a sequence. -/
structure Item where
  expr : Expr
  kind : ItemKind
  deriving DecidableEq, Repr

namespace Item

/-- The item for a set. -/
def ofSet (negated : Bool) (members : List SetItem) : Item :=
  ⟨.oneOf negated members.eraseDups, .test⟩

/-- The item for a letter. -/
def ofLetter (c : CodePoint) : Item :=
  ofSet false [.letter c]

/-- The members of the set that a sequence consists of, if it is one item and that is a set. -/
def members? : List Item → Option (List SetItem)
  | [⟨.oneOf false members, _⟩] => some members
  | _ => none

/-- The alternatives that are one set each, as one set. -/
def commonSet? (alternatives : List (List Item)) : Option Item :=
  (alternatives.mapM members?).map fun found => ofSet false found.flatten

/-- The expression for items one after the other. -/
def sequence (items : List Item) : Expr :=
  items.foldr (fun item e => .seq item.expr e) .empty

/-- The expression for any one of the alternatives, earlier ones preferred. -/
def choiceOf : (first : List Item) → (others : List (List Item)) → Expr
  | first, [] => sequence first
  | first, second :: others => .choice (sequence first) (choiceOf second others)

/-- Whether an item can be taken out of alternatives that all begin with it. -/
def isShared (item : Item) (others : List (List Item)) : Bool :=
  (item.kind == .test || item.kind == .place) && others.all fun other => other.head? == some item

/-- The items for any one of several alternatives.  What all of them begin with stands in front of
the choice, and alternatives that are one set or letter each are read as one set. -/
def alternatives : (first : List Item) → (others : List (List Item)) → List Item
  | item :: rest, others =>
    if isShared item others then item :: alternatives rest (others.map List.tail)
    else [(commonSet? ((item :: rest) :: others)).getD ⟨choiceOf (item :: rest) others, .other⟩]
  | [], others => [⟨choiceOf [] others, .other⟩]

end Item

/-- An expression together with how it is shown and whether case matters. -/
structure Pattern where
  shown : Text
  caseless : Bool
  expr : Expr
  deriving Repr

namespace Pattern

/-- Whether a name begins with a match. -/
def accepts (p : Pattern) (name : Text) : Bool :=
  (p.expr.attempt p.caseless name.length some name).isSome

/-- The items for a given text. -/
def lettersOf (word : Text) : List Item :=
  word.map Item.ofLetter

/-- Names that begin with the given word in any case. -/
def starting (word : Text) : Pattern where
  shown := "^" ++ word
  caseless := true
  expr := .seq .textStart (Item.sequence (lettersOf word))

/-- Names that begin with one of the given words, of which there is at least one, in any case. -/
def startingWithAny (word : Text) (words : List Text) : Pattern where
  shown := "^(" ++ Text.joined "|" (word :: words) ++ ")"
  caseless := true
  expr := .seq .textStart
    (Item.sequence (Item.alternatives (lettersOf word) (words.map lettersOf)))

end Pattern

end ProjectAudit
