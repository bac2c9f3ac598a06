import ProjectAudit.Files.Host
import ProjectAudit.Proofs.Run.Faulting

/-!
# A written file is read back

A file is written to where its path leads, and afterwards the path still leads there.  That is not
plain, since the way itself is looked up in the tree that has changed.  What saves it is that a file
is put only where nothing or another file was: no step of a walk that comes to an end at something,
or at a vacant name, looks at such a location on its way, since a walk goes on only through
directories and links.

* `FileTree.walk_set_file`: a walk in the tree with the file ends where it did, at the file if it
  ended at the vacant name before.
* `Host.fileContent_withFile`: the content of the file that was written.
-/

namespace ProjectAudit

namespace FileTree

variable {t : FileTree} {l m : Location}

/-! ## Setting a node -/

theorem find?_map_replace (entries : List (Location × Node)) (l m : Location) (n : Node) :
    (entries.map fun e => if e.1 = l then (l, n) else e).find? (fun e => e.1 == m) =
      (entries.find? fun e => e.1 == m).map fun e => if e.1 = l then (l, n) else e := by
  rw [List.find?_map]
  congr 2
  funext e
  by_cases he : e.1 = l <;> simp [he]

theorem node?_set_self (t : FileTree) (hl : l ≠ []) (n : Node) : (t.set l n).node? l = some n := by
  rw [node?, if_neg hl, set]
  by_cases hany : (t.entries.any fun e => e.1 == l) = true
  · rw [if_pos hany, find?_map_replace]
    obtain ⟨e, hmem, he⟩ := List.any_eq_true.1 hany
    obtain ⟨found, hfound⟩ := Option.isSome_iff_exists.1
      (List.find?_isSome.2 ⟨e, hmem, he⟩ : (t.entries.find? fun e => e.1 == l).isSome)
    have hname : found.1 = l := by simpa using List.find?_some hfound
    rw [hfound]
    simp [hname]
  · have hnone : (t.entries.find? fun e => e.1 == l) = none := by
      rw [List.find?_eq_none]
      exact fun e hmem he => hany (List.any_eq_true.2 ⟨e, hmem, he⟩)
    rw [if_neg hany, List.find?_append, hnone]
    simp

theorem node?_set_of_ne (t : FileTree) (hne : m ≠ l) (n : Node) :
    (t.set l n).node? m = t.node? m := by
  rw [node?, node?]
  split
  · rfl
  rw [set]
  by_cases hany : (t.entries.any fun e => e.1 == l) = true
  · rw [if_pos hany, find?_map_replace]
    cases hfound : t.entries.find? fun e => e.1 == m with
    | none => rfl
    | some e =>
      have hname : e.1 = m := by simpa using List.find?_some hfound
      simp [hname, hne]
  · rw [if_neg hany, List.find?_append]
    cases hfound : t.entries.find? fun e => e.1 == m with
    | none => simp [Ne.symm hne]
    | some e => simp

/-- A location at which a file may be put: nothing or a file is there. -/
def TakesFile (t : FileTree) (l : Location) : Prop :=
  l ≠ [] ∧ (t.node? l = none ∨ ∃ content, t.node? l = some (.file content))

theorem TakesFile.isDirectory_eq_false (h : t.TakesFile l) : t.isDirectory l = false := by
  rw [isDirectory]
  rcases h.2 with hnone | ⟨content, hfile⟩
  · simp [hnone]
  · simp [hfile]

/-- A directory stays what it is. -/
theorem TakesFile.isDirectory_set (h : t.TakesFile l) (content : List UInt8)
    (hm : t.isDirectory m = true) : (t.set l (.file content)).isDirectory m = true := by
  have hne : m ≠ l := by
    rintro rfl
    rw [h.isDirectory_eq_false] at hm
    cases hm
  rw [isDirectory, node?_set_of_ne t hne]
  exact hm

end FileTree

/-! ## Walks -/

/-- The end of a walk once a file is put at a location. -/
def Spot.filled (l : Location) : Spot → Spot
  | .taken m => .taken m
  | .vacant parent name => if name :: parent = l then .taken l else .vacant parent name

/-- The end of a stretch once a file is put at a location. -/
def FileTree.Stretch.filled (l : Location) : Stretch → Stretch
  | .stop result => .stop (result.map (Spot.filled l))
  | .follow directory target rest => .follow directory target rest

namespace FileTree

variable {t : FileTree} {l : Location}

/-- A stretch that is not refused goes the same way once a file is put at a location. -/
theorem advance_set_file (h : t.TakesFile l) (content : List UInt8) (followLast : Bool) :
    ∀ (names : List FileName) (here : Location),
      (∃ e, t.advance followLast here names = .stop (.error e)) ∨
        (t.set l (.file content)).advance followLast here names =
          (t.advance followLast here names).filled l
  | [], here => .inr rfl
  | name :: rest, here => by
    have hrest := advance_set_file h content followLast rest
    rw [advance, advance]
    cases hhere : t.isDirectory here with
    | false => exact .inl ⟨.notDirectory, rfl⟩
    | true =>
    rw [h.isDirectory_set content hhere]
    simp only [Bool.not_true, Bool.false_eq_true, if_false]
    split
    · exact hrest here
    split
    · exact hrest here.tail
    split
    · exact .inl ⟨.nameTooLong, rfl⟩
    -- the set entry is met here, or the step looks at one that is as it was
    by_cases hnext : name :: here = l
    · rw [hnext, node?_set_self t h.1]
      rcases h.2 with hnone | ⟨old, hfile⟩
      · rw [hnone]
        cases rest with
        | nil => exact .inr (by simp [advance, Stretch.filled, Spot.filled, Except.map, hnext])
        | cons next rest => exact .inl ⟨.noEntry, rfl⟩
      · rw [hfile]
        exact hrest l
    · rw [node?_set_of_ne t hnext]
      split
      · split
        · exact .inr (by simp [Stretch.filled, Spot.filled, Except.map, hnext])
        · exact .inl ⟨.noEntry, rfl⟩
      · split
        · exact .inr rfl
        · exact .inr rfl
      · exact hrest (name :: here)

/-- What holds where a stretch ends a walk, and is kept when a link is followed, holds of every walk
that comes to an end. -/
theorem walk_induction {followLast : Bool} {spot : Spot}
    {motive : Nat → Location → List FileName → Prop}
    (stop : ∀ budget here names, t.advance followLast here names = .stop (.ok spot) →
      motive budget here names)
    (follow : ∀ budget here names directory target rest,
      t.advance followLast here names = .follow directory target rest →
      motive budget (startOf directory target) (segments FileName.isSlash target ++ rest) →
      motive (budget + 1) here names) :
    ∀ budget here names, t.walk followLast budget here names = .ok spot →
      motive budget here names
  | budget, here, names, hwalk => by
    rw [walk] at hwalk
    cases hstretch : t.advance followLast here names with
    | stop result =>
      rw [hstretch] at hwalk
      obtain rfl : result = .ok spot := hwalk
      exact stop budget here names hstretch
    | follow directory target rest =>
      rw [hstretch] at hwalk
      cases budget with
      | zero => cases hwalk
      | succ budget =>
        have hrest := walk_induction stop follow budget _ _ hwalk
        exact follow budget here names directory target rest hstretch hrest

/-- A walk that comes to an end goes the same way once a file is put at a location. -/
theorem walk_set_file (h : t.TakesFile l) (content : List UInt8) (followLast : Bool)
    {spot : Spot} :
    ∀ (budget : Nat) (here : Location) (names : List FileName),
      t.walk followLast budget here names = .ok spot →
      (t.set l (.file content)).walk followLast budget here names = .ok (spot.filled l) := by
  refine walk_induction ?_ ?_
  · intro budget here names hstop
    rcases advance_set_file h content followLast names here with ⟨e, he⟩ | hadvance
    · rw [hstop] at he
      cases he
    · rw [walk, hadvance, hstop]
      rfl
  · intro budget here names directory target rest hfollow hrest
    rcases advance_set_file h content followLast names here with ⟨e, he⟩ | hadvance
    · rw [hfollow] at he
      cases he
    · rw [walk, hadvance, hfollow]
      exact hrest

/-- A walk ends at a vacant name only where nothing is. -/
theorem node?_of_advance_vacant {followLast : Bool} {parent : Location} {vacant : FileName} :
    ∀ (names : List FileName) (here : Location),
      t.advance followLast here names = .stop (.ok (.vacant parent vacant)) →
      t.node? (vacant :: parent) = none
  | [], here => by
    intro hstop
    cases hstop
  | name :: rest, here => by
    have hrest : ∀ here, t.advance followLast here rest = .stop (.ok (.vacant parent vacant)) →
        t.node? (vacant :: parent) = none := node?_of_advance_vacant rest
    rw [advance]
    intro hstop
    split at hstop
    · cases hstop
    split at hstop
    · exact hrest here hstop
    split at hstop
    · exact hrest here.tail hstop
    split at hstop
    · cases hstop
    split at hstop
    · rename_i hnone
      split at hstop
      · cases hstop
        exact hnone
      · cases hstop
    · split at hstop <;> cases hstop
    · exact hrest (name :: here) hstop

theorem node?_of_walk_vacant {followLast : Bool} {parent : Location} {vacant : FileName} :
    ∀ (budget : Nat) (here : Location) (names : List FileName),
      t.walk followLast budget here names = .ok (.vacant parent vacant) →
      t.node? (vacant :: parent) = none := by
  refine walk_induction ?_ ?_
  · exact fun _ here names hstop => node?_of_advance_vacant names here hstop
  · exact fun _ _ _ _ _ _ _ hrest => hrest

end FileTree

/-! ## The host -/

namespace Host

variable {h h' : Host} {p : Path} {content : List UInt8}

/-- What a path leads to is found by a walk. -/
theorem spot_eq_ok_iff {h : Host} {spot : Spot} :
    h.spot p = .ok spot ↔ ∃ names, encodeName p.text = .ok names ∧ names.contains 0 = false ∧
      names.length < FileTree.pathLimit ∧
      h.tree.walk true FileTree.linkBudget (FileTree.startOf h.workingDirectory names)
        (segments FileName.isSlash names) = .ok spot := by
  rw [Host.spot, FileTree.locate]
  cases hnames : encodeName p.text with
  | error e => simp
  | ok names =>
    simp only [Except.ok.injEq, exists_eq_left']
    cases hzero : names.contains 0 with
    | true => simp
    | false =>
      simp only [Bool.false_eq_true, if_false, true_and, mapError_eq_ok, FileTree.walkNames]
      by_cases hlong : names.length ≥ FileTree.pathLimit
      · simp [hlong, Nat.not_lt.2 hlong]
      · simp [hlong, Nat.lt_of_not_le hlong]

/-- A path that leads somewhere leads there still once a file is put at a location. -/
theorem spot_set_file (content : List UInt8) {l : Location} (hl : h.tree.TakesFile l) {spot : Spot}
    (hspot : h.spot p = .ok spot) :
    ({ h with tree := h.tree.set l (.file content) } : Host).spot p = .ok (spot.filled l) := by
  obtain ⟨names, hnames, hzero, hlong, hwalk⟩ := spot_eq_ok_iff.1 hspot
  exact spot_eq_ok_iff.2 ⟨names, hnames, hzero, hlong,
    FileTree.walk_set_file hl content true _ _ _ hwalk⟩

theorem fileContent_of_spot {l : Location} (hspot : h.spot p = .ok (.taken l))
    (hnode : h.tree.node? l = some (.file content)) : h.fileContent p = .ok content := by
  have hfind : h.find p = .ok l := by
    rw [find, hspot]
    rfl
  rw [fileContent, hfind]
  simp only [bind, Except.bind, hnode]

/-- **A written file is read back.** -/
theorem fileContent_withFile (hwritten : h.withFile p content = .ok h') :
    h'.fileContent p = .ok content := by
  rw [withFile] at hwritten
  rcases hspot : h.spot p with fault | (l | ⟨parent, name⟩)
  · rw [hspot] at hwritten
    cases hwritten
  · rw [hspot] at hwritten
    simp only [bind, Except.bind] at hwritten
    split at hwritten
    · rename_i old hold
      obtain rfl := Except.ok.inj hwritten
      have hne : l ≠ [] := by
        rintro rfl
        rw [FileTree.node?_root] at hold
        cases hold
      exact fileContent_of_spot (spot_set_file content ⟨hne, .inr ⟨old, hold⟩⟩ hspot)
        (FileTree.node?_set_self _ hne _)
    · cases hwritten
  · rw [hspot] at hwritten
    obtain rfl := Except.ok.inj hwritten
    obtain ⟨names, -, -, -, hwalk⟩ := spot_eq_ok_iff.1 hspot
    have hnone := FileTree.node?_of_walk_vacant _ _ _ hwalk
    have hfilled := spot_set_file content ⟨List.cons_ne_nil _ _, .inl hnone⟩ hspot
    rw [Spot.filled, if_pos rfl] at hfilled
    exact fileContent_of_spot hfilled (FileTree.node?_set_self _ (List.cons_ne_nil _ _) _)

end Host

end ProjectAudit
