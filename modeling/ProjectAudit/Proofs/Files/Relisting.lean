import ProjectAudit.Files.Host

/-!
# Trees that list their entries in another order

The order in which a directory hands out its names is nothing that a project has a say in.  Two
trees relist each other if the same stands at each location, and each directory has the same names
in whatever order.  Walks look up one name at a time, so every question about a path has the same
answer in both trees; only the names in a directory come in another order.

* `FileTree.Relists`: the same nodes, and the same names in each directory up to their order.
* `FileTree.relists_of_perm`: another order of the entries.
* `FileTree.Relists.locate_eq`, `FileTree.Relists.holdsAt_eq`: paths lead to the same in both trees.
-/

namespace ProjectAudit

namespace FileTree

/-- The second tree has the nodes of the first one, and its directories have the same names, which
may come in another order. -/
structure Relists (t t' : FileTree) : Prop where
  node?_eq : ∀ l, t'.node? l = t.node? l
  namesIn_perm : ∀ l, (t'.namesIn l).Perm (t.namesIn l)

variable {t t' : FileTree}

/-! ## Another order of the entries -/

/-- What stands at a location is its one entry. -/
theorem node?_eq_some_iff_mem (hnodup : (t.entries.map Prod.fst).Nodup) {l : Location}
    (hl : l ≠ []) {node : Node} : t.node? l = some node ↔ (l, node) ∈ t.entries := by
  rw [node?, if_neg hl]
  generalize t.entries = entries at hnodup
  induction entries with
  | nil => simp
  | cons e entries ih =>
    obtain ⟨m, other⟩ := e
    rw [List.map_cons, List.nodup_cons] at hnodup
    obtain ⟨hfresh, hnodup⟩ := hnodup
    by_cases hm : m = l
    · subst hm
      have habsent : (m, node) ∉ entries := fun hmem =>
        hfresh (List.mem_map.2 ⟨(m, node), hmem, rfl⟩)
      rw [List.find?_cons_of_pos (by simp), List.mem_cons, or_iff_left habsent]
      simp [eq_comm]
    · have hne : (l, node) ≠ (m, other) := fun heq => hm (Prod.mk.inj heq).1.symm
      rw [List.find?_cons_of_neg (by simpa using hm), List.mem_cons, or_iff_right hne]
      exact ih hnodup

/-- **Entries in another order** make a tree that relists the first one, if no location has two of
them. -/
theorem relists_of_perm (hnodup : (t.entries.map Prod.fst).Nodup)
    (hperm : t'.entries.Perm t.entries) : t.Relists t' where
  node?_eq l := by
    by_cases hl : l = []
    · rw [hl, node?_root, node?_root]
    · have hnodup' : (t'.entries.map Prod.fst).Nodup := (hperm.map Prod.fst).nodup_iff.2 hnodup
      refine Option.ext fun node => ?_
      rw [node?_eq_some_iff_mem hnodup' hl, node?_eq_some_iff_mem hnodup hl, hperm.mem_iff]
  namesIn_perm l := hperm.filterMap _

/-! ## Walks -/

namespace Relists

variable (h : t.Relists t')

include h

theorem isDirectory_eq (l : Location) : t'.isDirectory l = t.isDirectory l := by
  rw [isDirectory, h.node?_eq, isDirectory]

theorem mem_namesIn_iff {l : Location} {n : FileName} : n ∈ t'.namesIn l ↔ n ∈ t.namesIn l :=
  (h.namesIn_perm l).mem_iff

theorem advance_eq (followLast : Bool) :
    ∀ (names : List FileName) (here : Location),
      t'.advance followLast here names = t.advance followLast here names
  | [], _ => rfl
  | name :: rest, here => by
    rw [advance, advance, h.isDirectory_eq, h.node?_eq, advance_eq followLast rest here,
      advance_eq followLast rest here.tail, advance_eq followLast rest (name :: here)]

theorem walk_eq (followLast : Bool) (budget : Nat) (here : Location) (names : List FileName) :
    t'.walk followLast budget here names = t.walk followLast budget here names := by
  induction budget generalizing here names with
  | zero => rw [walk, h.advance_eq, walk]
  | succ budget ih =>
    rw [walk, h.advance_eq, walk]
    split
    · rfl
    · exact ih _ _

/-- **Paths lead to the same** in both trees. -/
theorem locate_eq (workingDirectory : Location) (followLast : Bool) (p : Path) :
    t'.locate workingDirectory followLast p = t.locate workingDirectory followLast p := by
  have hnames : ∀ names, t'.walkNames workingDirectory followLast names =
      t.walkNames workingDirectory followLast names := by
    intro names
    rw [walkNames, h.walk_eq, walkNames]
  rw [locate, locate]
  simp only [hnames]

end Relists

end FileTree

/-! ## Questions about paths -/

namespace FileTree.Relists

variable {h : Host} {t' : FileTree} (hrelists : h.tree.Relists t')

include hrelists

theorem spot_eq (p : Path) : ({ h with tree := t' } : Host).spot p = h.spot p :=
  hrelists.locate_eq h.workingDirectory true p

theorem find_eq (p : Path) : ({ h with tree := t' } : Host).find p = h.find p := by
  rw [Host.find, hrelists.spot_eq, Host.find]

/-- **What stands at a path** is the same in both trees. -/
theorem holdsAt_eq (p : Path) (condition : Node → Bool) :
    ({ h with tree := t' } : Host).holdsAt p condition = h.holdsAt p condition := by
  rw [Host.holdsAt, hrelists.find_eq, Host.holdsAt]
  simp only [hrelists.node?_eq]

theorem host_isDirectory_eq (p : Path) :
    ({ h with tree := t' } : Host).isDirectory p = h.isDirectory p :=
  hrelists.holdsAt_eq p _

/-- A listing has the names of the directory in the second tree. -/
theorem listing?_eq (p : Path) :
    ({ h with tree := t' } : Host).listing? p =
      (h.listing? p).map fun listing => (listing.1, t'.namesIn listing.1) := by
  rw [Host.listing?, hrelists.find_eq, Host.listing?]
  cases h.find p with
  | error e => rfl
  | ok l =>
    dsimp only
    rw [hrelists.isDirectory_eq]
    cases h.tree.isDirectory l && !h.unlisted.contains l <;> rfl

theorem filePresent_eq (nonempty : Bool) (p : Path) :
    ({ h with tree := t' } : Host).filePresent nonempty p = h.filePresent nonempty p := by
  rw [Host.filePresent, hrelists.holdsAt_eq, Host.filePresent]

theorem firstPresent?_eq (nonempty : Bool) (directory : Path) (names : List Text) :
    ({ h with tree := t' } : Host).firstPresent? nonempty directory names =
      h.firstPresent? nonempty directory names := by
  have hpresent : ({ h with tree := t' } : Host).filePresent nonempty = h.filePresent nonempty :=
    funext (hrelists.filePresent_eq nonempty)
  rw [Host.firstPresent?, hpresent, Host.firstPresent?]

end FileTree.Relists

end ProjectAudit
