import ProjectAudit.Files.Name

/-!
# Paths

A path is an anchor and a list of names.  Reading one drops empty names and `.`, so
`a//./b/` and `a/b` are the same path; `..` is a name like any other, since what it means depends
on links.  A path of no names is written `.`, unless it has an anchor.

Two slashes at the start are an anchor of their own, and any other number of them is one slash.
-/

namespace ProjectAudit

/-- Where a path begins. -/
inductive Anchor
  | relative
  | root
  | doubleRoot
  deriving DecidableEq, Repr

/-- A path. -/
structure Path where
  anchor : Anchor := .relative
  names : List Text := []
  deriving DecidableEq, Repr

namespace Path

/-- The names between the slashes, empty ones and `.` included. -/
def components (t : Text) : List Text :=
  segments (· == '/') t

/-- The anchor that a text begins with. -/
def anchorOf : Text → Anchor
  | .char '/' :: .char '/' :: .char '/' :: _ => .root
  | .char '/' :: .char '/' :: _ => .doubleRoot
  | .char '/' :: _ => .root
  | _ => .relative

/-- A name that moves somewhere. -/
def isProperName (name : Text) : Bool :=
  name != "" && name != "."

/-- The path that a text denotes. -/
def ofText (t : Text) : Path where
  anchor := anchorOf t
  names := (components t).filter isProperName

/-- How an anchor is written. -/
def anchorText : Anchor → Text
  | .relative => ""
  | .root => "/"
  | .doubleRoot => "//"

/-- The text of a path. -/
def text (p : Path) : Text :=
  if p.anchor = .relative && p.names.isEmpty then "."
  else anchorText p.anchor ++ Text.joined "/" p.names

/-- The path without its last name; a path of no names is its own parent. -/
def parent (p : Path) : Path :=
  { p with names := p.names.dropLast }

/-- The last name, or nothing. -/
def lastName (p : Path) : Text :=
  p.names.getLast?.getD ""

/-- The second path seen from the first one: an anchored path is taken as it is. -/
def join (p q : Path) : Path :=
  if q.anchor = .relative then { p with names := p.names ++ q.names } else q

/-- `join` with a path given as text. -/
def child (p : Path) (name : Text) : Path :=
  p.join (ofText name)

/-- The part of a name from its last point on, unless the point is at either end. -/
def suffixOf (name : Text) : Text :=
  let ending := (name.reverse.takeWhile (· != CodePoint.char '.')).reverse
  let front := name.length - ending.length
  if ending.isEmpty || front ≤ 1 then [] else '.' :: ending

/-- The suffix of the last name. -/
def suffix (p : Path) : Text :=
  suffixOf p.lastName

/-- The parents of a path from its own up to the one that is its own parent. -/
def ancestorsOf (anchor : Anchor) : (innermostFirst : List Text) → List Path
  | [] => [⟨anchor, []⟩]
  | _ :: [] => [⟨anchor, []⟩]
  | _ :: n :: ns => ⟨anchor, (n :: ns).reverse⟩ :: ancestorsOf anchor (n :: ns)

/-- The directories above a path, the nearest first. -/
def ancestors (p : Path) : List Path :=
  ancestorsOf p.anchor p.names.reverse

/-- The names of a path as the file system keeps them. -/
def fileNames (p : Path) : List FileName :=
  p.names.filterMap fun name => (encodeName name).toOption

end Path

end ProjectAudit
