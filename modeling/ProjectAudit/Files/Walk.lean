import ProjectAudit.Files.Tree

/-!
# Walking a path

The file system walks a path name by name.  A link on the way is replaced by its target, at most
`linkBudget` times in one walk; a link at the end is replaced only when the walk is asked to.  Each
name must be looked up in a directory.

`advance` walks up to the next link, by recursion on the names that are left, and `walk` goes on
from its target, by recursion on the budget.

`locate` walks a path.  A path never reaches the file system when its text has no form as a name,
or holds a NUL character.
-/

namespace ProjectAudit

/-- Why the file system refuses a path.  That it may do so for lack of permission is left out. -/
inductive Errno
  | noEntry
  | notDirectory
  | isDirectory
  | nameTooLong
  | linkLoop
  deriving DecidableEq, Repr

namespace Errno

/-- The number of an error. -/
def code : Errno → Nat
  | .noEntry => 2
  | .notDirectory => 20
  | .isDirectory => 21
  | .nameTooLong => 36
  | .linkLoop => 40

/-- The wording of an error. -/
def text : Errno → String
  | .noEntry => "No such file or directory"
  | .notDirectory => "Not a directory"
  | .isDirectory => "Is a directory"
  | .nameTooLong => "File name too long"
  | .linkLoop => "Too many levels of symbolic links"

end Errno

/-- Why a question about a path has no answer. -/
inductive PathFault
  /-- The file system refuses the path. -/
  | refused (e : Errno) (path : Path)
  /-- The text has no form as a name. -/
  | unencodable (e : Text.Utf8.EncodeError)
  | nulCharacter
  /-- Links lead back to themselves. -/
  | loop
  /-- Links lead to links too many times over. -/
  | nestedTooDeep
  deriving DecidableEq, Repr

/-- The wording of a fault. -/
def PathFault.message : PathFault → Text
  | .refused e path =>
    "[Errno " ++ toString e.code ++ "] " ++ e.text ++ ": " ++ Text.quoted path.text
  | .unencodable e => e.message
  | .nulCharacter => "embedded null byte"
  | .loop => "Symlink loop"
  | .nestedTooDeep => "Links are nested too deeply"

/-- The file system was asked and refused. -/
def PathFault.isRefusal : PathFault → Bool
  | .refused _ _ => true
  | _ => false

/-- Where a walk ends. -/
inductive Spot
  /-- Something stands at the location. -/
  | taken (l : Location)
  /-- The directory has no entry of the last name. -/
  | vacant (parent : Location) (name : FileName)
  deriving DecidableEq, Repr

namespace FileTree

/-- The number of links that one walk may follow. -/
def linkBudget : Nat := 40

/-- The greatest number of bytes in a name. -/
def maxNameBytes : Nat := 255

/-- The number of bytes from which on a path is refused. -/
def pathLimit : Nat := 4096

/-- How a walk goes on after a stretch without links. -/
inductive Stretch
  | stop (result : Except Errno Spot)
  | follow (directory : Location) (target : FileName) (rest : List FileName)

/-- Walks up to the next link that has to be followed. -/
def advance (t : FileTree) (followLast : Bool) : Location → List FileName → Stretch
  | here, [] => .stop (.ok (.taken here))
  | here, name :: rest =>
    if !t.isDirectory here then .stop (.error .notDirectory)
    else if !name.isProper then advance t followLast here rest
    else if name = FileName.above then advance t followLast here.tail rest
    else if name.length > maxNameBytes then .stop (.error .nameTooLong)
    else match t.node? (name :: here) with
      | none => .stop (if rest.isEmpty then .ok (.vacant here name) else .error .noEntry)
      | some (.link target) =>
        if rest.isEmpty && !followLast then .stop (.ok (.taken (name :: here)))
        else .follow here target rest
      | some _ => advance t followLast (name :: here) rest

/-- Where names are walked from that begin in the given directory, or at the root if they say so. -/
def startOf (directory : Location) (names : FileName) : Location :=
  if names.head?.any FileName.isSlash then [] else directory

/-- Walks the names from a location, with a budget of links to follow. -/
def walk (t : FileTree) (followLast : Bool) :
    (budget : Nat) → Location → List FileName → Except Errno Spot
  | budget, here, names =>
    match t.advance followLast here names with
    | .stop result => result
    | .follow directory target rest =>
      match budget with
      | 0 => .error .linkLoop
      | budget + 1 =>
        walk t followLast budget (startOf directory target)
          (segments FileName.isSlash target ++ rest)

/-- Where the names of a path lead, seen from a directory. -/
def walkNames (t : FileTree) (directory : Location) (followLast : Bool) (names : FileName) :
    Except Errno Spot :=
  if names.length ≥ pathLimit then .error .nameTooLong
  else t.walk followLast linkBudget (startOf directory names) (segments FileName.isSlash names)

/-- Where a path leads, with a link at its end followed or not. -/
def locate (t : FileTree) (workingDirectory : Location) (followLast : Bool) (p : Path) :
    Except PathFault Spot :=
  match encodeName p.text with
  | .ok names =>
    if names.contains 0 then .error .nulCharacter
    else (t.walkNames workingDirectory followLast names).mapError (.refused · p)
  | .error e => .error (.unencodable e)

end FileTree

end ProjectAudit
