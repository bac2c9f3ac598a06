import ProjectAudit.Files.Resolve
import ProjectAudit.Settings.Libraries
import ProjectAudit.Text.Lines

/-!
# Asking the file system

A host has a file tree, a working directory, environment variables and libraries.  The questions
here are those that the rules and the command line ask about paths.

A question can fail to have an answer.  The file system refuses a path that is missing or that
leads through a file or a loop, which for `isFile` and `isDirectory` is an answer, namely no; a name
that is too long is refused for good.  A path that cannot be given to the file system stands for
nothing: nothing is there, and it can be neither opened nor resolved.

Of what is permitted only the listing of directories is told apart here: a host names those whose
names it does not hand out.  Otherwise it looks up names in every directory, and opens and writes
every file; that it refuses to, for lack of permission, is left out.
-/

namespace ProjectAudit

/-- The machine that a project is looked at on. -/
structure Host where
  tree : FileTree := {}
  workingDirectory : Location := []
  environment : List (Text × Text) := []
  /-- The directories that do not let themselves be listed. -/
  unlisted : List Location := []
  libraries : Libraries := .plain

namespace Host

/-- The value of an environment variable. -/
def environmentValue? (h : Host) (name : Text) : Option Text :=
  (h.environment.find? fun v => v.1 == name).map (·.2)

/-- Where a path leads, links followed. -/
def spot (h : Host) (p : Path) : Except PathFault Spot :=
  h.tree.locate h.workingDirectory true p

/-- The location of what stands at a path. -/
def find (h : Host) (p : Path) : Except PathFault Location := do
  match ← h.spot p with
  | .taken l => .ok l
  | .vacant _ _ => .error (.refused .noEntry p)

/-- Whether a fault is an answer to the question if something is there. -/
def isAbsence : PathFault → Bool
  | .refused .noEntry _ | .refused .notDirectory _ | .refused .linkLoop _ => true
  | .unencodable _ | .nulCharacter => true
  | _ => false

/-- Whether what stands at a path satisfies a condition; no where nothing is. -/
def holdsAt (h : Host) (p : Path) (condition : Node → Bool) : Except PathFault Bool :=
  match h.find p with
  | .ok l => .ok ((h.tree.node? l).any condition)
  | .error fault => if isAbsence fault then .ok false else .error fault

/-- A node that is a file. -/
def isFileNode : Node → Bool
  | .file _ => true
  | _ => false

/-- A node that is a file with something in it. -/
def isFilledFile : Node → Bool
  | .file content => !content.isEmpty
  | _ => false

/-- Whether a file stands at a path. -/
def isFile (h : Host) (p : Path) : Except PathFault Bool :=
  h.holdsAt p isFileNode

/-- Whether a directory stands at a path. -/
def isDirectory (h : Host) (p : Path) : Except PathFault Bool :=
  h.holdsAt p (· == .directory)

/-- Whether a file, not an empty one if so asked, stands at a path.  Where there is no answer there
is no file. -/
def filePresent (h : Host) (nonempty : Bool) (p : Path) : Bool :=
  match h.holdsAt p (if nonempty then isFilledFile else isFileNode) with
  | .ok present => present
  | .error _ => false

/-- The directory at a path with the names in it, if one is there that lets itself be listed. -/
def listing? (h : Host) (p : Path) : Option (Location × List FileName) :=
  match h.find p with
  | .ok l =>
    if h.tree.isDirectory l && !h.unlisted.contains l then some (l, h.tree.namesIn l) else none
  | .error _ => none

/-- The names in the directory at a path, if it lets itself be listed. -/
def namesIn? (h : Host) (p : Path) : Option (List Text) :=
  (h.listing? p).map fun listing => listing.2.map decodeName

/-- The first of the names, read as paths from a directory, at which a file is present. -/
def firstPresent? (h : Host) (nonempty : Bool) (directory : Path) (names : List Text) :
    Option Path :=
  (names.map directory.child).find? (h.filePresent nonempty)

/-- The path that a path stands for once all links are replaced. -/
def resolve (h : Host) (p : Path) : Except PathFault Path :=
  h.tree.resolve h.workingDirectory p

/-- The bytes of the file at a path. -/
def fileContent (h : Host) (p : Path) : Except PathFault (List UInt8) := do
  let l ← h.find p
  match h.tree.node? l with
  | some (.file content) => .ok content
  | _ => .error (.refused .isDirectory p)

/-- The host with a file of the given content at a path.  What a link at the path leads to is
written, even if nothing is there yet. -/
def withFile (h : Host) (p : Path) (content : List UInt8) : Except PathFault Host := do
  match ← h.spot p with
  | .vacant parent name => .ok { h with tree := h.tree.set (name :: parent) (.file content) }
  | .taken l =>
    match h.tree.node? l with
    | some (.file _) => .ok { h with tree := h.tree.set l (.file content) }
    | _ => .error (.refused .isDirectory p)

end Host

/-- Why a text file could not be read. -/
inductive TextFault
  | unreadable (fault : PathFault)
  | undecodable (e : Text.Utf8.DecodeError)
  deriving DecidableEq, Repr

namespace Host

/-- The text of the file at a path, with every line end a line feed.  The decoder is given, since a
file that is read line by line is decoded in blocks. -/
def readText (h : Host) (decode : List UInt8 → Except Text.Utf8.DecodeError Text)
    (p : Path) : Except TextFault Text := do
  let bytes ← (h.fileContent p).mapError .unreadable
  let text ← (decode bytes).mapError .undecodable
  return Text.unifyNewlines text

end Host

end ProjectAudit
