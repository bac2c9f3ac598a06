import ProjectAudit.Proofs.Files.Walks
import Mathlib.Data.List.Induction

/-!
# Paths without links

A path stands for a location if its names lead there without any link.  Such a path needs no tree to
be read: a name that was appended goes down, and `..` goes up, so its absolute form names the
location itself.
-/

namespace ProjectAudit

namespace Path

/-- The path with one more name. -/
def under (p : Path) (name : Text) : Path :=
  { p with names := p.names ++ [name] }

theorem fileNames_under (p : Path) {name : Text} {n : FileName} (h : encodeName name = .ok n) :
    (p.under name).fileNames = p.fileNames ++ [n] := by
  rw [fileNames, under, List.filterMap_append, List.filterMap_cons_some (by rw [h]; rfl)]
  rfl

theorem under_inj {p q : Path} {name other : Text} (h : p.under name = q.under other) :
    p = q ∧ name = other := by
  obtain ⟨anchor, names⟩ := p
  obtain ⟨anchor', names'⟩ := q
  obtain ⟨rfl, hnames⟩ := Path.mk.inj h
  obtain ⟨rfl, hname⟩ := List.append_inj' hnames rfl
  exact ⟨rfl, List.head_eq_of_cons_eq hname⟩

end Path

namespace FileTree

variable {t : FileTree} {wd l l' : Location} {p : Path} {name : Text} {n : FileName} {node : Node}

/-- The location of a directory that is reached from the root through directories alone. -/
inductive Rooted (t : FileTree) : Location → Prop
  | root : Rooted t []
  | inside {l : Location} {n : FileName} (habove : Rooted t l) (hname : n.IsEntry)
    (hslash : ∀ b ∈ n, FileName.isSlash b = false) (hnode : t.node? (n :: l) = some .directory) :
    Rooted t (n :: l)

theorem Rooted.isDirectory (h : t.Rooted l) : t.isDirectory l = true := by
  cases h with
  | root =>
    rw [FileTree.isDirectory, node?_root]
    rfl
  | inside _ _ _ hnode =>
    rw [FileTree.isDirectory, hnode]
    rfl

/-- The names of a path lead to a location, and none of them is a link. -/
inductive Stands (t : FileTree) (wd : Location) : Path → Location → Prop
  | start {p : Path} (hnames : p.names = []) : Stands t wd p (startIn wd p)
  | up {p : Path} {l : Location} (h : Stands t wd p l) (hhere : t.isDirectory l = true) :
    Stands t wd (p.under "..") l.tail
  | enter {p : Path} {l : Location} {name : Text} {n : FileName} {node : Node}
    (h : Stands t wd p l) (hhere : t.isDirectory l = true) (hslash : .char '/' ∉ name)
    (hencode : encodeName name = .ok n) (hname : n.IsEntry)
    (hnode : t.node? (n :: l) = some node) (hplain : node.IsPlain) :
    Stands t wd (p.under name) (n :: l)

theorem isName_of_isEntry (hname : n.IsEntry) (hencode : encodeName name = .ok n)
    (hslash : .char '/' ∉ name) : IsName name ∧ name ≠ ".." :=
  ⟨⟨(isProper_iff hencode).symm.trans hname.proper, hslash⟩,
    fun heq => hname.ne_above ((eq_above_iff hencode).2 heq)⟩

theorem Stands.proper (h : t.Stands wd p l) : p.Proper := by
  induction h with
  | start hnames =>
    intro name hname
    rw [hnames] at hname
    exact absurd hname List.not_mem_nil
  | up _ _ ih =>
    intro name hname
    rcases List.mem_append.1 hname with hname | hname
    · exact ih name hname
    · obtain rfl := List.mem_singleton.1 hname
      exact ⟨by decide, by decide⟩
  | enter _ _ hslash hencode hentry _ _ ih =>
    intro name hname
    rcases List.mem_append.1 hname with hname | hname
    · exact ih name hname
    · obtain rfl := List.mem_singleton.1 hname
      exact (isName_of_isEntry hentry hencode hslash).1

/-- A walk that begins with the names of the path goes on from the location. -/
theorem Stands.walk (h : t.Stands wd p l) (followLast : Bool) (budget : Nat)
    (rest : List FileName) :
    t.walk followLast budget (startIn wd p) (p.fileNames ++ rest) =
      t.walk followLast budget l rest := by
  induction h generalizing rest with
  | start hnames => rw [Path.fileNames, hnames, List.filterMap_nil, List.nil_append]
  | @up p l _ hhere ih =>
    have hencode : encodeName ".." = .ok FileName.above := rfl
    rw [Path.fileNames_under p hencode, List.append_assoc]
    exact (ih _).trans (walk_congr (advance_above hhere followLast) budget)
  | @enter p l _ _ _ _ hhere _ hencode hname hnode hplain ih =>
    rw [Path.fileNames_under p hencode, List.append_assoc]
    exact (ih _).trans (walk_congr (advance_enter hhere hname hnode hplain followLast) budget)

/-- The location is where the names go when they are read by themselves. -/
theorem Stands.eq_foldl (h : t.Stands wd p l) :
    l = p.fileNames.foldl (fun l n => if n = FileName.above then l.tail else n :: l)
      (startIn wd p) := by
  induction h with
  | start hnames => rw [Path.fileNames, hnames, List.filterMap_nil, List.foldl_nil]
  | @up p l _ _ ih =>
    have hencode : encodeName ".." = .ok FileName.above := rfl
    rw [Path.fileNames_under p hencode, List.foldl_append]
    exact congrArg List.tail ih
  | @enter p l _ n _ _ _ _ hencode hname _ _ ih =>
    rw [Path.fileNames_under p hencode, List.foldl_append, List.foldl_cons, List.foldl_nil,
      if_neg hname.ne_above]
    exact congrArg (n :: ·) ih

/-- A path stands for one location. -/
theorem Stands.unique (h : t.Stands wd p l) (h' : t.Stands wd p l') : l = l' :=
  h.eq_foldl.trans h'.eq_foldl.symm

/-- The path above stands for the directory above. -/
theorem Stands.above (h : t.Stands wd p l) (hhere : t.isDirectory l = true) :
    t.Stands wd p.above l.tail := by
  have hup := Stands.up h hhere
  cases h with
  | start hnames =>
    -- above the root is the root, and above a relative path without names is `..`
    obtain ⟨anchor, names⟩ := p
    obtain rfl : names = [] := hnames
    cases anchor with
    | relative => exact hup
    | root => exact .start rfl
    | doubleRoot => exact .start rfl
  | up h hbefore =>
    rw [Path.above, Path.under, List.getLast?_concat]
    exact hup
  | enter h hbefore hslash hencode hname _ _ =>
    have hne := (isName_of_isEntry hname hencode hslash).2
    rw [Path.above, Path.under, List.getLast?_concat]
    dsimp only
    rw [if_neg hne, Path.parent, List.dropLast_concat]
    exact h

end FileTree

/-! ## Absolute forms -/

namespace Path

variable {wd : Location} {p : Path} {name : Text}

theorem join_under (a p : Path) (name : Text) : a.join (p.under name) = (a.join p).under name := by
  rw [join, join]
  by_cases hanchor : p.anchor = .relative
  · rw [if_pos hanchor, if_pos (show (p.under name).anchor = .relative from hanchor)]
    exact congrArg (Path.mk a.anchor) (List.append_assoc _ _ _).symm
  · rw [if_neg hanchor, if_neg (show ¬ (p.under name).anchor = .relative from hanchor)]

/-- A name more goes down. -/
theorem literal_under (p : Path) (hname : name ≠ "..") :
    (p.under name).literal = p.literal.under name := by
  rw [literal, under, List.foldl_append, List.foldl_cons, List.foldl_nil, literal.step,
    if_neg hname, List.reverse_cons]
  rfl

/-- A further `..` takes the last name away. -/
theorem literal_under_above (p : Path) :
    (p.under "..").literal = { p.literal with names := p.literal.names.dropLast } := by
  rw [literal, under, List.foldl_append, List.foldl_cons, List.foldl_nil, literal.step, if_pos rfl,
    ← List.dropLast_reverse]
  rfl

/-- No `..` is left. -/
theorem above_notMem_literal (p : Path) : Text.ofString ".." ∉ p.literal.names := by
  obtain ⟨anchor, names⟩ := p
  induction names using List.reverseRecOn with
  | nil => exact List.not_mem_nil
  | append_singleton names name ih =>
    by_cases hname : name = ".."
    · subst hname
      show Text.ofString ".." ∉ (Path.literal (Path.under ⟨anchor, names⟩ "..")).names
      rw [literal_under_above]
      exact fun hmem => ih (List.dropLast_subset _ hmem)
    · show Text.ofString ".." ∉ (Path.literal (Path.under ⟨anchor, names⟩ name)).names
      rw [literal_under _ hname]
      intro hmem
      rcases List.mem_append.1 hmem with hmem | hmem
      · exact ih hmem
      · exact hname (List.mem_singleton.1 hmem).symm

theorem absolute_under (wd : Location) (p : Path) (hname : name ≠ "..") :
    (p.under name).absolute wd = (p.absolute wd).under name := by
  rw [absolute, join_under, literal_under _ hname]
  rfl

theorem anchor_absolute_ne (wd : Location) (p : Path) : (p.absolute wd).anchor ≠ .relative := by
  show ((ofLocation wd).join p).anchor ≠ .relative
  rw [join]
  split
  · exact nofun
  · assumption

theorem ofLocation_cons (n : FileName) (l : Location) :
    ofLocation (n :: l) = (ofLocation l).under (decodeName n) := by
  rw [ofLocation, List.reverse_cons, List.map_append]
  rfl

/-- A further `..` makes the absolute form the one above. -/
theorem absolute_under_above (wd : Location) (p : Path) :
    (p.under "..").absolute wd = (p.absolute wd).above := by
  have hdrop : (p.under "..").absolute wd =
      { p.absolute wd with names := (p.absolute wd).names.dropLast } := by
    rw [absolute, join_under, literal_under_above]
    rfl
  have hnone := above_notMem_literal ((ofLocation wd).join p)
  have hanchor := anchor_absolute_ne wd p
  rw [hdrop, above]
  change Text.ofString ".." ∉ (p.absolute wd).names at hnone
  cases hlast : (p.absolute wd).names.getLast? with
  | none =>
    have hempty := List.getLast?_eq_none_iff.1 hlast
    dsimp only
    rw [if_neg hanchor, hempty, List.dropLast_nil, ← hempty]
  | some last =>
    have hne : last ≠ ".." := by
      rintro rfl
      exact hnone (List.mem_of_getLast? hlast)
    dsimp only
    rw [if_neg hne]
    rfl

end Path

namespace FileTree

variable {t : FileTree} {wd l : Location} {p : Path}

/-- No `..` is in the path of a location. -/
theorem Rooted.literal_ofLocation (h : t.Rooted l) :
    (Path.ofLocation l).literal = Path.ofLocation l := by
  induction h with
  | root => rfl
  | @inside l n _ hname hslash _ ih =>
    have hencode := encodeName_decodeName n
    have hfree := slash_notMem_of_encodeName hencode hslash
    rw [Path.ofLocation_cons, Path.literal_under _ (isName_of_isEntry hname hencode hfree).2, ih]

/-- The path of a location stands for it. -/
theorem Rooted.stands (h : t.Rooted l) (wd : Location) : t.Stands wd (Path.ofLocation l) l := by
  induction h with
  | root => exact .start rfl
  | @inside l n habove hname hslash hnode ih =>
    have hencode := encodeName_decodeName n
    rw [Path.ofLocation_cons]
    exact ih.enter habove.isDirectory (slash_notMem_of_encodeName hencode hslash) hencode hname
      hnode .directory

/-- **The absolute form of a path without links** stands for the location of the path. -/
theorem Stands.absolute (hwd : t.Rooted wd) (h : t.Stands wd p l) :
    t.Stands wd (p.absolute wd) l := by
  induction h with
  | @start p hnames =>
    rw [Path.absolute, Path.join, startIn]
    split
    · rw [hnames, List.append_nil]
      show t.Stands wd (Path.ofLocation wd).literal wd
      rw [hwd.literal_ofLocation]
      exact hwd.stands wd
    · rename_i hanchor
      have hempty : p.literal = p := by
        rw [Path.literal, hnames]
        exact congrArg (Path.mk p.anchor) hnames.symm
      rw [hempty]
      have hstart : t.Stands wd p (startIn wd p) := .start hnames
      rwa [startIn, if_neg hanchor] at hstart
  | @up p l _ hhere ih =>
    rw [Path.absolute_under_above]
    exact ih.above hhere
  | @enter p l name _ _ _ hhere hslash hencode hname hnode hplain ih =>
    rw [Path.absolute_under _ _ (isName_of_isEntry hname hencode hslash).2]
    exact ih.enter hhere hslash hencode hname hnode hplain

end FileTree

end ProjectAudit
