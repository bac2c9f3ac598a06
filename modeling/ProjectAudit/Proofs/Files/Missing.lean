import ProjectAudit.Proofs.Files.Resolved

/-!
# Paths that lead nowhere

A path goes astray if the directory where it begins has no entry of its first name.  Then so do all
paths that enclose it, but for the one without names, and none of them is a link.  So the names of a
path that goes astray are kept when it is resolved, and nothing is there at its end, whatever else
stands in the tree.

* `Path.Encloses`: the directories above a path.
* `Path.under_induction`: what holds of every path, one name after the other.
* `Host.holdsAt_of_astray`: nothing is there.
* `Host.resolve_of_astray`: the names are kept.
-/

namespace ProjectAudit

namespace Path

variable {p q : Path} {name : Text}

/-! ## The directories above a path -/

/-- The path itself, or that of a directory above it. -/
def Encloses (outer inner : Path) : Prop :=
  outer.anchor = inner.anchor ∧ outer.names <+: inner.names

theorem Encloses.refl (p : Path) : p.Encloses p :=
  ⟨rfl, List.prefix_rfl⟩

theorem Encloses.trans {r : Path} (h : r.Encloses q) (h' : q.Encloses p) : r.Encloses p :=
  ⟨h.1.trans h'.1, h.2.trans h'.2⟩

theorem Encloses.length_le (h : q.Encloses p) : q.names.length ≤ p.names.length :=
  h.2.length_le

theorem encloses_of_names_eq_nil (h : p.names = []) : q.Encloses p ↔ q = p := by
  obtain ⟨anchor, names⟩ := p
  obtain ⟨anchor', names'⟩ := q
  subst h
  rw [Encloses, List.prefix_nil, Path.mk.injEq]

/-- What encloses a path is the path, or encloses its parent. -/
theorem encloses_under : q.Encloses (p.under name) ↔ q = p.under name ∨ q.Encloses p := by
  obtain ⟨anchor, names⟩ := p
  obtain ⟨anchor', names'⟩ := q
  rw [Encloses, Encloses, under, List.prefix_concat_iff, and_or_left, Path.mk.injEq]

theorem parent_under (p : Path) (name : Text) : (p.under name).parent = p := by
  rw [parent, under, List.dropLast_concat]

theorem parent_ne_under (p : Path) (name : Text) : (p.under name).parent ≠ p.under name := by
  rw [parent_under]
  intro hsame
  have hlength := congrArg (fun path : Path => path.names.length) hsame
  simp [under] at hlength

/-- What holds of a path without names, and of a path with one name more, holds of every path. -/
theorem under_induction {motive : Path → Prop} (bare : ∀ anchor, motive ⟨anchor, []⟩)
    (under : ∀ p name, motive p → motive (p.under name)) (p : Path) : motive p := by
  obtain ⟨anchor, names⟩ := p
  induction names using List.reverseRecOn with
  | nil => exact bare anchor
  | append_singleton names last ih => exact under ⟨anchor, names⟩ last ih

/-- A path without `..` is literal already. -/
theorem literal_eq_self (h : Text.ofString ".." ∉ p.names) : p.literal = p := by
  induction p using under_induction with
  | bare anchor => rfl
  | under p name ih =>
    rw [under, List.mem_append, List.mem_singleton, not_or] at h
    rw [literal_under p (Ne.symm h.2), ih h.1]

end Path

namespace FileTree

variable {t : FileTree} {wd : Location} {p q : Path}

/-! ## Going astray -/

/-- The directory where the path begins has no entry of its first name. -/
structure Astray (t : FileTree) (wd : Location) (p : Path) : Prop where
  proper : p.Proper
  given : p.CanBeGiven
  missing : ∃ name rest n, p.names = name :: rest ∧ encodeName name = .ok n ∧ n.IsEntry ∧
    t.node? (n :: startIn wd p) = none

/-- What is found of a path that goes astray, if it can be asked for. -/
theorem Astray.locate (h : t.Astray wd p) (hwd : t.isDirectory wd = true) (hshort : p.Short)
    (followLast : Bool) :
    (∃ l n, t.locate wd followLast p = .ok (.vacant l n)) ∨
      t.locate wd followLast p = .error (.refused .noEntry p) := by
  obtain ⟨name, rest, n, hnames, hencode, hname, hnode⟩ := h.missing
  have hfirst : p.fileNames = n :: rest.filterMap fun name => (encodeName name).toOption := by
    rw [Path.fileNames, hnames, List.filterMap_cons_some (by rw [hencode]; rfl)]
  rw [locate_eq hwd h.proper h.given hshort, hfirst, walk,
    advance_entry (isDirectory_startIn hwd p) hname, hnode]
  cases rest.filterMap fun name => (encodeName name).toOption with
  | nil => exact .inl ⟨_, n, rfl⟩
  | cons => exact .inr rfl

theorem Astray.linkAt? (h : t.Astray wd p) (hwd : t.isDirectory wd = true) :
    t.linkAt? wd p = .ok none := by
  by_cases hshort : p.Short
  · rw [FileTree.linkAt?]
    rcases h.locate hwd hshort false with ⟨l, n, hlocate⟩ | hlocate
    · rw [hlocate]
    · rw [hlocate]
  · exact linkAt?_of_long h.given hshort

/-- What encloses the path goes astray with it, for the first name is the same. -/
theorem Astray.of_encloses (h : t.Astray wd p) (hencloses : q.Encloses p) (hsome : q.names ≠ []) :
    t.Astray wd q := by
  obtain ⟨hanchor, more, hmore⟩ := hencloses
  have hsubset : ∀ name ∈ q.names, name ∈ p.names := fun name hname =>
    hmore ▸ List.mem_append_left more hname
  obtain ⟨name, rest, n, hnames, hencode, hname, hnode⟩ := h.missing
  obtain ⟨first, others, hfirst⟩ := List.exists_cons_of_ne_nil hsome
  rw [hfirst, hnames, List.cons_append] at hmore
  obtain rfl := (List.cons.inj hmore).1
  refine ⟨fun name hname => h.proper name (hsubset name hname), ?_, first, others, n, hfirst,
    hencode, hname, ?_⟩
  · exact Path.canBeGiven_iff.2 fun name hname =>
      Path.canBeGiven_iff.1 h.given name (hsubset name hname)
  · rwa [startIn, hanchor]

/-- The names of a path are kept, if what encloses it is no link. -/
theorem resolveFrom_unlinked (hproper : p.Proper) (habove : Text.ofString ".." ∉ p.names)
    (hlinks : ∀ q : Path, q.Encloses p → q.names ≠ [] → t.linkAt? wd q = .ok none) (depth : Nat)
    (rest : List Text) (seen : Followed) :
    t.resolveFrom wd (depth + 1) ⟨p.anchor, []⟩ (p.names ++ rest) seen =
      t.resolveFrom wd (depth + 1) p rest seen := by
  induction p using Path.under_induction generalizing rest with
  | bare anchor => rfl
  | under p name ih =>
    have hlink := hlinks _ (.refl _) (List.append_ne_nil_of_right_ne_nil _ (List.cons_ne_nil _ _))
    have hname := hproper name (List.mem_append_right _ (List.mem_singleton_self _))
    rw [Path.under, List.mem_append, List.mem_singleton, not_or] at habove
    have hkept := ih (fun name hname => hproper name (List.mem_append_left _ hname)) habove.1
      (fun q hq => hlinks q (Path.encloses_under.2 (.inr hq))) (name :: rest)
    rw [Path.under, List.append_assoc]
    exact hkept.trans (resolveFrom_plain hname.1 (Ne.symm habove.2) hlink)

end FileTree

namespace Host

variable {h : Host} {p : Path}

/-- **Nothing is where a path goes astray.** -/
theorem holdsAt_of_astray (hastray : h.tree.Astray h.workingDirectory p)
    (hwd : h.tree.isDirectory h.workingDirectory = true) (hshort : p.Short)
    (condition : Node → Bool) : h.holdsAt p condition = .ok false := by
  rw [holdsAt, find, spot]
  rcases hastray.locate hwd hshort true with ⟨l, n, hlocate⟩ | hlocate
  · rw [hlocate]
    rfl
  · rw [hlocate]
    rfl

/-- **The names of a path that goes astray are kept**, here as it is seen from the root. -/
theorem resolve_of_astray (hastray : h.tree.Astray h.workingDirectory p)
    (hroot : h.workingDirectory = []) (hrelative : p.anchor = .relative)
    (habove : Text.ofString ".." ∉ p.names) : h.resolve p = .ok ⟨.root, p.names⟩ := by
  have hwd : h.tree.isDirectory h.workingDirectory = true :=
    hroot ▸ FileTree.Rooted.root.isDirectory
  have hkept := FileTree.resolveFrom_unlinked hastray.proper habove
    (fun q hq hsome => (hastray.of_encloses hq hsome).linkAt? hwd) (FileTree.maxNesting - 1) [] []
  rw [List.append_nil, hrelative] at hkept
  have habsolute : p.absolute h.workingDirectory = ⟨.root, p.names⟩ := by
    rw [hroot, Path.absolute, Path.join, if_pos hrelative]
    exact Path.literal_eq_self (p := ⟨.root, p.names⟩) habove
  have hresolved : h.tree.resolved h.workingDirectory p = .ok ⟨.root, p.names⟩ := by
    rw [FileTree.resolved, if_pos hrelative, ← habsolute]
    exact congrArg (fun reached => reached >>= _) hkept
  -- the working directory is the root, so the same is missing where the result begins
  have hstart : FileTree.startIn h.workingDirectory ⟨.root, p.names⟩ =
      FileTree.startIn h.workingDirectory p := by
    rw [FileTree.startIn, FileTree.startIn, if_pos hrelative, hroot]
    rfl
  have hgiven := Path.canBeGiven_iff.1 hastray.given
  have hthere : h.tree.Astray h.workingDirectory ⟨.root, p.names⟩ :=
    ⟨hastray.proper, Path.canBeGiven_iff.2 hgiven, hstart.symm ▸ hastray.missing⟩
  refine resolve_of_spot hthere.given hresolved fun hshort => ?_
  rcases hthere.locate hwd hshort true with ⟨l, n, hlocate⟩ | hlocate
  · exact .inl ⟨_, hlocate⟩
  · exact .inr hlocate

end Host

end ProjectAudit
