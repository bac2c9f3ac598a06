import ProjectAudit.Files.Walk

/-!
# Resolving a path

Resolving a path gives the path that it stands for, whether or not anything is there.  Links on the
way are replaced by their targets, and names that lead nowhere are kept.  Unlike a walk it is not
bounded by a number of links: what a link led to is remembered under the path by which it was met.

A link that is met by the same path again while it is being followed cannot be replaced.  Then that
path and the names still to come are put together as texts (`joinTexts`), first those left of the
target in which the link was met, then those left of the target before, and so on.  As with all
joining of texts, a rest that begins with a slash takes the place of what is in front of it.

The result is made absolute and `..` in it is taken literally.  Resolving fails if the file system
refuses the result as a loop of links, or if a path on the way cannot be given to it at all.

`follow` recurses on the names that are left, and `resolveFrom` on how deep targets are nested.
-/

namespace ProjectAudit

/-- A text behind another one, with a slash between them; one that begins with a slash alone. -/
def joinTexts (a b : Text) : Text :=
  if b.head? = some (.char '/') then b
  else if a.isEmpty || a.getLast? = some (.char '/') then a ++ b
  else a ++ "/" ++ b

namespace Path

/-- The path of a location. -/
def ofLocation (l : Location) : Path :=
  ⟨.root, l.reverse.map decodeName⟩

/-- The path with `..` behind it, which takes the last name away where there is one. -/
def above (p : Path) : Path :=
  match p.names.getLast? with
  | none => if p.anchor = .relative then ⟨p.anchor, [".."]⟩ else p
  | some last => if last = ".." then ⟨p.anchor, p.names ++ [last]⟩ else p.parent

/-- The path with each `..` taken literally, at most up to its anchor. -/
def literal (p : Path) : Path :=
  { p with names := (p.names.foldl step []).reverse }
where
  /-- One name more; the names so far are given in reverse. -/
  step (before : List Text) (name : Text) : List Text :=
    if name = ".." then before.tail else name :: before

/-- The absolute form of a path, seen from a working directory. -/
def absolute (workingDirectory : Location) (p : Path) : Path :=
  ((ofLocation workingDirectory).join p).literal

end Path

namespace FileTree

/-- The links met so far, each under the path by which it was met, with the path that it led to once
its end was reached. -/
abbrev Followed := List (Path × Option Path)

/-- The last thing known of a link. -/
def followed? (seen : Followed) (link : Path) : Option (Option Path) :=
  (seen.find? fun e => e.1 == link).map (·.2)

/-- Where names lead. -/
inductive Reached
  /-- Every link on the way is replaced. -/
  | path (p : Path)
  /-- A link on the way leads back to itself. -/
  | looping (t : Text)

/-- Where the names behind what was reached lead, when they are not looked at. -/
def Reached.unread (behind : Text) : Reached → Reached
  | .path p => .looping (joinTexts p.text behind)
  | .looping t => .looping (joinTexts t behind)

/-- The target of a link at a path, if a link stands there. -/
def linkAt? (t : FileTree) (workingDirectory : Location) (p : Path) :
    Except PathFault (Option Text) :=
  match t.locate workingDirectory false p with
  | .ok (.taken l) =>
    match t.node? l with
    | some (.link target) => .ok (some (decodeName target))
    | _ => .ok none
  | .ok (.vacant _ _) | .error (.refused _ _) => .ok none
  | .error fault => .error fault

/-- Where the names of a link's target begin, the link standing in the given directory. -/
def targetStart (directory : Path) (target : Text) : Path :=
  if Path.anchorOf target = .relative then directory else ⟨.root, []⟩

/-- Follows names from a path on.  The names of a target are followed by `descend`. -/
def follow (t : FileTree) (workingDirectory : Location)
    (descend : Path → List Text → Followed → Except PathFault (Reached × Followed)) :
    Path → List Text → Followed → Except PathFault (Reached × Followed)
  | here, [], seen => .ok (.path here, seen)
  | here, name :: rest, seen =>
    if !Path.isProperName name then follow t workingDirectory descend here rest seen
    else if name = ".." then follow t workingDirectory descend here.above rest seen
    else do
      let next : Path := { here with names := here.names ++ [name] }
      match ← t.linkAt? workingDirectory next with
      | none => follow t workingDirectory descend next rest seen
      | some target =>
        match followed? seen next with
        | some (some p) => follow t workingDirectory descend p rest seen
        | some none => return (Reached.unread (Text.joined "/" rest) (.path next), seen)
        | none =>
          let start := targetStart here target
          match ← descend start (Path.components target) ((next, none) :: seen) with
          | (.path p, seen) => follow t workingDirectory descend p rest ((next, some p) :: seen)
          | (reached, seen) => return (reached.unread (Text.joined "/" rest), seen)

/-- The greatest number of targets inside each other. -/
def maxNesting : Nat := 990

/-- Follows names, with a bound on how deep targets may be nested. -/
def resolveFrom (t : FileTree) (workingDirectory : Location) :
    (depth : Nat) → Path → List Text → Followed → Except PathFault (Reached × Followed)
  | 0 => fun _ _ _ => .error .nestedTooDeep
  | depth + 1 => t.follow workingDirectory (resolveFrom t workingDirectory depth)

/-- The path that a path stands for, seen from a working directory. -/
def resolved (t : FileTree) (workingDirectory : Location) (p : Path) : Except PathFault Path := do
  let start : Path := if p.anchor = .relative then {} else ⟨.root, []⟩
  match ← t.resolveFrom workingDirectory maxNesting start p.names [] with
  | (.path p, _) => return p.absolute workingDirectory
  | (.looping text, _) => return (Path.ofText text).absolute workingDirectory

/-- `resolved`, unless the file system refuses the result as a loop of links. -/
def resolve (t : FileTree) (workingDirectory : Location) (p : Path) : Except PathFault Path := do
  let resolved ← t.resolved workingDirectory p
  match t.locate workingDirectory true resolved with
  | .ok _ => return resolved
  | .error (.refused .linkLoop _) => .error .loop
  | .error (.refused _ _) => return resolved
  | .error fault => .error fault

end FileTree

end ProjectAudit
