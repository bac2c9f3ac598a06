import ProjectAudit.Files.Resolve

/-!
# Changing a file tree

Putting a node at a path makes the directories on the way that are missing and follows the links on
it.  A file is written to where a link at its path leads; a link takes the place of whatever stands
at its own path.  Where the way is barred the tree stays as it is, but for the directories made so
far.
-/

namespace ProjectAudit.FileTree

/-- The location reached by names, with a directory made for each name that leads nowhere, and the
tree with these directories. -/
def reach (t : FileTree) : Location → List FileName → FileTree × Option Location
  | here, [] => (t, some here)
  | here, name :: rest =>
    match t.walk true linkBudget here [name] with
    | .ok (.taken l) => reach t l rest
    | .ok (.vacant parent name) =>
      reach (t.set (name :: parent) .directory) (name :: parent) rest
    | .error _ => (t, none)

/-- The tree with a file of the given name in a directory. -/
def putFile (t : FileTree) (directory : Location) (name : FileName) (content : List UInt8) :
    FileTree :=
  match t.walk true linkBudget directory [name] with
  | .ok (.taken l) => t.set l (.file content)
  | .ok (.vacant parent name) => t.set (name :: parent) (.file content)
  | .error _ => t

/-- The location that a path begins at, seen from a base directory. -/
def baseOf (base : Location) (p : Path) : Location :=
  if p.anchor = .relative then base else []

/-- The tree with a node at a path, seen from a base directory. -/
def put (t : FileTree) (base : Location) (p : Path) (node : Node) : FileTree :=
  match node with
  | .directory => (t.reach (baseOf base p) p.fileNames).1
  | node =>
    match t.reach (baseOf base p) p.fileNames.dropLast, p.fileNames.getLast? with
    | (t, some directory), some name =>
      match node with
      | .file content => t.putFile directory name content
      | node => t.set (name :: directory) node
    | (t, _), _ => t

/-- The tree without what stands at a path, a link at its end not being followed. -/
def remove (t : FileTree) (base : Location) (p : Path) : FileTree :=
  match t.locate base false p with
  | .ok (.taken l) => t.erase l
  | _ => t

end ProjectAudit.FileTree
