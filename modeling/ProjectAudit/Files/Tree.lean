import ProjectAudit.Files.Path

/-!
# File trees

A file tree gives a node to each of finitely many locations.  A location lists the names from the
innermost one to the root, so that its tail is the directory around it and its tails are its
ancestors.  The root itself is always a directory and needs no entry.

The order of the entries is the order in which a directory hands out its names; nothing else
depends on it as long as no location has two entries.
-/

namespace ProjectAudit

/-- The place of a node, innermost name first. -/
abbrev Location := List FileName

/-- What stands at a location. -/
inductive Node
  | file (content : List UInt8)
  | directory
  | link (target : FileName)
  deriving DecidableEq, Repr

/-- A tree of files, directories and links. -/
structure FileTree where
  entries : List (Location × Node) := []
  deriving Repr

namespace FileTree

/-- The node at a location. -/
def node? (t : FileTree) (l : Location) : Option Node :=
  if l = [] then some .directory else (t.entries.find? fun e => e.1 == l).map (·.2)

/-- Whether a directory stands at a location. -/
def isDirectory (t : FileTree) (l : Location) : Bool :=
  t.node? l == some .directory

/-- The names in a directory. -/
def namesIn (t : FileTree) (l : Location) : List FileName :=
  t.entries.filterMap fun e =>
    match e.1 with
    | name :: parent => if parent = l then some name else none
    | [] => none

/-- The tree with the given node at a location, in the place of the one there. -/
def set (t : FileTree) (l : Location) (n : Node) : FileTree :=
  if (t.entries.any fun e => e.1 == l) then
    ⟨t.entries.map fun e => if e.1 = l then (l, n) else e⟩
  else ⟨t.entries ++ [(l, n)]⟩

/-- The tree without a location and everything below it. -/
def erase (t : FileTree) (l : Location) : FileTree :=
  ⟨t.entries.filter fun e => !l.isSuffixOf e.1⟩

theorem node?_root (t : FileTree) : t.node? [] = some .directory := by
  simp [node?]

theorem node?_erase_self (t : FileTree) {l : Location} (h : l ≠ []) :
    (t.erase l).node? l = none := by
  simp only [node?, erase, h, if_false, List.find?_filter]
  rw [List.find?_eq_none.2]
  · rfl
  · rintro ⟨m, n⟩ -
    by_cases hm : m = l <;> simp [hm]

theorem node?_erase_of_not_suffix (t : FileTree) {l m : Location} (h : ¬ l <:+ m) :
    (t.erase l).node? m = t.node? m := by
  have hm : l.isSuffixOf m = false := by
    rw [Bool.eq_false_iff]
    exact fun hs => h (List.isSuffixOf_iff_suffix.1 hs)
  have hfind : (t.entries.filter fun e => !l.isSuffixOf e.1).find? (fun e => e.1 == m) =
      t.entries.find? fun e => e.1 == m := by
    induction t.entries with
    | nil => rfl
    | cons e es ih =>
      by_cases he : e.1 = m
      · simp [he, hm]
      · by_cases hl : l.isSuffixOf e.1 <;> simp [hl, he, ih]
  rw [node?, erase, hfind, node?]

end FileTree

end ProjectAudit
