import ProjectAudit.Files.Search
import ProjectAudit.Proofs.Run.Faulting

/-!
# Questions about paths that have no answer

Most of what a file system refuses is an answer to the question if something is there, namely no.
What is left over is one refusal: a name that is too long, or a path that is too long as a whole.
So a question about a path has an answer exactly if the path is not refused as too long, whatever
stands in the tree.

A file that is read is denied either by the system or before the system is asked, because its path
cannot be given to it.

* `Host.TooLong`: a path is refused as too long.
* `Host.fails_isDirectory_iff`, `Host.fails_scan_iff`: the questions without an answer.
* `Path.CanBeGiven`: a path can be given to the system.
* `Host.isRefusal_of_fileContent`, `Host.exists_of_not_canBeGiven`: who denies a file.
-/

namespace ProjectAudit

/-- The path can be given to the file system: its text has a form as names, in which there is no NUL
byte. -/
def Path.CanBeGiven (p : Path) : Prop :=
  ∃ names, encodeName p.text = .ok names ∧ (0 : UInt8) ∉ names

namespace FileTree

/-- A walk is never refused because a directory stands at its end. -/
theorem advance_ne_isDirectory (t : FileTree) (followLast : Bool) :
    ∀ (names : List FileName) (here : Location),
      t.advance followLast here names ≠ .stop (.error .isDirectory)
  | [], _ => by simp [advance]
  | name :: rest, here => by
    rw [advance]
    split
    · simp
    split
    · exact advance_ne_isDirectory t followLast rest here
    split
    · exact advance_ne_isDirectory t followLast rest here.tail
    split
    · simp
    split
    · split <;> simp
    · split <;> simp
    · exact advance_ne_isDirectory t followLast rest (name :: here)

theorem walk_ne_isDirectory (t : FileTree) (followLast : Bool) :
    ∀ (budget : Nat) (here : Location) (names : List FileName),
      t.walk followLast budget here names ≠ .error .isDirectory := by
  intro budget
  induction budget with
  | zero =>
    intro here names
    rw [walk]
    split
    · rename_i result hstop
      rintro rfl
      exact advance_ne_isDirectory t followLast names here hstop
    · simp
  | succ budget ih =>
    intro here names
    rw [walk]
    split
    · rename_i result hstop
      rintro rfl
      exact advance_ne_isDirectory t followLast names here hstop
    · exact ih _ _

theorem walkNames_ne_isDirectory (t : FileTree) (directory : Location) (followLast : Bool)
    (names : FileName) : t.walkNames directory followLast names ≠ .error .isDirectory := by
  rw [walkNames]
  split
  · simp
  · exact walk_ne_isDirectory t followLast _ _ _

end FileTree

namespace Host

variable {h : Host} {p : Path}

/-- The file system refuses a path as too long. -/
def TooLong (h : Host) (p : Path) : Prop :=
  h.spot p = .error (.refused .nameTooLong p)

/-- A path that leads nowhere is one at which nothing is, unless it is too long. -/
theorem isAbsence_of_spot_eq_error {fault : PathFault} (hspot : h.spot p = .error fault)
    (hlong : ¬ h.TooLong p) : isAbsence fault = true := by
  have hlocate := hspot
  rw [spot, FileTree.locate] at hlocate
  cases hname : encodeName p.text with
  | error e =>
    rw [hname] at hlocate
    obtain rfl := Except.error.inj hlocate
    rfl
  | ok names =>
    rw [hname] at hlocate
    dsimp only at hlocate
    split at hlocate
    · obtain rfl := Except.error.inj hlocate
      rfl
    · cases hwalk : h.tree.walkNames h.workingDirectory true names with
      | ok l => simp [hwalk, mapError_ok] at hlocate
      | error e =>
        rw [hwalk] at hlocate
        obtain rfl := Except.error.inj hlocate
        cases e with
        | noEntry => rfl
        | notDirectory => rfl
        | linkLoop => rfl
        | isDirectory => exact absurd hwalk (FileTree.walkNames_ne_isDirectory _ _ _ _)
        | nameTooLong => exact absurd hspot hlong

theorem TooLong.holdsAt_eq (hlong : h.TooLong p) (condition : Node → Bool) :
    h.holdsAt p condition = .error (.refused .nameTooLong p) := by
  have hfind : h.find p = .error (.refused .nameTooLong p) := by
    rw [find, hlong]
    rfl
  rw [holdsAt, hfind]
  rfl

theorem holdsAt_eq_ok (hlong : ¬ h.TooLong p) (condition : Node → Bool) :
    ∃ b, h.holdsAt p condition = .ok b := by
  rw [holdsAt, find]
  cases hspot : h.spot p with
  | error fault =>
    have habsence := isAbsence_of_spot_eq_error hspot hlong
    exact ⟨false, by simp [bind, Except.bind, habsence]⟩
  | ok spot =>
    cases spot with
    | taken l => exact ⟨_, rfl⟩
    | vacant parent name => exact ⟨false, rfl⟩

/-- **Whether a directory stands at a path** has no answer exactly if the path is too long. -/
theorem fails_isDirectory_iff : Fails (h.isDirectory p) ↔ h.TooLong p := by
  constructor
  · intro hfails
    refine Classical.byContradiction fun hlong => ?_
    exact not_fails_iff.2 (holdsAt_eq_ok hlong (· == .directory)) hfails
  · exact fun hlong => ⟨_, hlong.holdsAt_eq _⟩

/-- A question without an answer is one about a path that is too long. -/
theorem tooLong_of_holdsAt {condition : Node → Bool} {fault : PathFault}
    (hfault : h.holdsAt p condition = .error fault) :
    h.TooLong p ∧ fault = .refused .nameTooLong p := by
  by_cases hlong : h.TooLong p
  · exact ⟨hlong, Except.error.inj (hfault.symm.trans (hlong.holdsAt_eq condition))⟩
  · obtain ⟨b, hanswer⟩ := holdsAt_eq_ok hlong condition
    cases hfault.symm.trans hanswer

/-- Where it can be said whether something is a file, it can be said whether it is a directory. -/
theorem exists_isDirectory_of_isFile {b : Bool} (hfile : h.isFile p = .ok b) :
    ∃ b', h.isDirectory p = .ok b' := by
  refine holdsAt_eq_ok (fun hlong => ?_) (· == .directory)
  cases hfile.symm.trans (hlong.holdsAt_eq isFileNode)

theorem exists_find_of_isDirectory (hdirectory : h.isDirectory p = .ok true) :
    ∃ l, h.find p = .ok l := by
  rw [isDirectory, holdsAt] at hdirectory
  cases hfind : h.find p with
  | ok l => exact ⟨l, rfl⟩
  | error fault =>
    rw [hfind] at hdirectory
    dsimp only at hdirectory
    split at hdirectory <;> cases hdirectory

/-- Where a directory stands at a path, the path leads to a directory. -/
theorem exists_find_directory (hdirectory : h.isDirectory p = .ok true) :
    ∃ l, h.find p = .ok l ∧ h.tree.isDirectory l = true := by
  obtain ⟨l, hfind⟩ := exists_find_of_isDirectory hdirectory
  rw [isDirectory, holdsAt, hfind] at hdirectory
  have hany := Except.ok.inj hdirectory
  refine ⟨l, hfind, ?_⟩
  cases hnode : h.tree.node? l with
  | none => simp [hnode] at hany
  | some node => simpa [hnode, FileTree.isDirectory] using hany

/-- A directory is no file. -/
theorem isFile_of_isDirectory (hdirectory : h.isDirectory p = .ok true) :
    h.isFile p = .ok false := by
  obtain ⟨l, hfind, hnode⟩ := exists_find_directory hdirectory
  have hnode : h.tree.node? l = some .directory := by
    simpa [FileTree.isDirectory] using hnode
  rw [isFile, holdsAt, hfind]
  dsimp only
  rw [hnode]
  rfl

/-- A listing is that of a directory which lets itself be listed. -/
theorem listing?_eq_some_iff {l : Location} {names : List FileName} :
    h.listing? p = some (l, names) ↔
      h.find p = .ok l ∧ h.tree.isDirectory l = true ∧ l ∉ h.unlisted ∧
        h.tree.namesIn l = names := by
  rw [listing?]
  cases hfind : h.find p with
  | error e => simp
  | ok m =>
    dsimp only
    rw [Option.ite_none_right_eq_some, Option.some.injEq, Prod.mk.injEq, Except.ok.injEq]
    simp only [Bool.and_eq_true, Bool.not_eq_true', List.contains_eq_mem, decide_eq_false_iff_not]
    constructor
    · rintro ⟨⟨hhere, hlisted⟩, rfl, rfl⟩
      exact ⟨rfl, hhere, hlisted, rfl⟩
    · rintro ⟨rfl, hhere, hlisted, rfl⟩
      exact ⟨⟨hhere, hlisted⟩, rfl, rfl⟩

theorem listing?_eq_none {l : Location} (hfind : h.find p = .ok l) (hunlisted : l ∈ h.unlisted) :
    h.listing? p = none := by
  rw [listing?, hfind]
  simp [hunlisted]

/-- The outcome of a scan is known unless the path of the directory is too long. -/
theorem fails_scan_iff {accepts : Text → Bool} {nonempty : Bool} :
    Fails (h.scan accepts nonempty p) ↔ h.TooLong p := by
  rw [← fails_isDirectory_iff, scan, fails_bind]
  refine or_iff_left ?_
  rintro ⟨b, -, hfails⟩
  cases b with
  | false => exact not_fails_ok _ hfails
  | true =>
    rcases hlisting : h.listing? p with _ | ⟨l, names⟩
    · rw [hlisting] at hfails
      exact not_fails_ok _ hfails
    · rw [hlisting] at hfails
      exact not_fails_ok _ hfails

/-! ## Reading a file -/

theorem fileContent_of_spot_eq_error {fault : PathFault} (hspot : h.spot p = .error fault) :
    h.fileContent p = .error fault := by
  rw [fileContent, find, hspot]
  rfl

/-- A file at a path that can be given to the file system is denied by the system alone. -/
theorem isRefusal_of_fileContent {fault : PathFault} (hgiven : p.CanBeGiven)
    (hfault : h.fileContent p = .error fault) : fault.isRefusal = true := by
  obtain ⟨names, hname, hnul⟩ := hgiven
  have hspot : h.spot p =
      (h.tree.walkNames h.workingDirectory true names).mapError (.refused · p) := by
    rw [spot, FileTree.locate, hname]
    exact if_neg (by simpa using hnul)
  rcases hwalk : h.tree.walkNames h.workingDirectory true names with e | spot
  · rw [hwalk, mapError_error] at hspot
    rw [fileContent_of_spot_eq_error hspot] at hfault
    obtain rfl := Except.error.inj hfault
    rfl
  · rw [hwalk, mapError_ok] at hspot
    rw [fileContent, find, hspot] at hfault
    cases spot with
    | vacant parent name =>
      obtain rfl := Except.error.inj hfault
      rfl
    | taken l =>
      simp only [bind, Except.bind] at hfault
      split at hfault
      · cases hfault
      · obtain rfl := Except.error.inj hfault
        rfl

/-- At a path that cannot be given to the file system no file is read, and no system is asked. -/
theorem exists_of_not_canBeGiven (h : Host) (hgiven : ¬ p.CanBeGiven) :
    ∃ fault, h.fileContent p = .error fault ∧ fault.isRefusal = false := by
  rcases hname : encodeName p.text with e | names
  · have hspot : h.spot p = .error (.unencodable e) := by
      rw [spot, FileTree.locate, hname]
    exact ⟨_, fileContent_of_spot_eq_error hspot, rfl⟩
  · have hnul : (0 : UInt8) ∈ names := by
      refine Classical.byContradiction fun hnul => ?_
      exact hgiven ⟨names, hname, hnul⟩
    have hspot : h.spot p = .error .nulCharacter := by
      rw [spot, FileTree.locate, hname]
      exact if_pos (by simpa using hnul)
    exact ⟨_, fileContent_of_spot_eq_error hspot, rfl⟩

/-- A path that the system denies is one that it can be given. -/
theorem canBeGiven_of_isRefusal {fault : PathFault} (hfault : h.fileContent p = .error fault)
    (hrefusal : fault.isRefusal = true) : p.CanBeGiven := by
  refine Classical.byContradiction fun hgiven => ?_
  obtain ⟨other, hother, hasked⟩ := exists_of_not_canBeGiven h hgiven
  obtain rfl := Except.error.inj (hother.symm.trans hfault)
  exact Bool.false_ne_true (hasked.symm.trans hrefusal)

variable {decode : List UInt8 → Except Text.Utf8.DecodeError Text}

theorem readText_eq_unreadable_iff {fault : PathFault} :
    h.readText decode p = .error (.unreadable fault) ↔ h.fileContent p = .error fault := by
  rw [readText]
  rcases h.fileContent p with e | bytes
  · simp [mapError_error, bind, Except.bind]
  · rcases hdecode : decode bytes <;>
    simp [hdecode, mapError_ok, mapError_error, bind, Except.bind, pure, Except.pure]

theorem readText_eq_undecodable_iff {e : Text.Utf8.DecodeError} :
    h.readText decode p = .error (.undecodable e) ↔
      ∃ bytes, h.fileContent p = .ok bytes ∧ decode bytes = .error e := by
  rw [readText]
  rcases h.fileContent p with fault | bytes
  · simp [mapError_error, bind, Except.bind]
  · rcases hdecode : decode bytes <;>
    simp [hdecode, mapError_ok, mapError_error, bind, Except.bind, pure, Except.pure]

theorem readText_eq_ok_iff {t : Text} :
    h.readText decode p = .ok t ↔
      ∃ bytes text, h.fileContent p = .ok bytes ∧ decode bytes = .ok text ∧
        Text.unifyNewlines text = t := by
  rw [readText]
  rcases h.fileContent p with fault | bytes
  · simp [mapError_error, bind, Except.bind]
  · rcases hdecode : decode bytes <;>
    simp [hdecode, mapError_ok, mapError_error, bind, Except.bind, pure, Except.pure]

end Host

end ProjectAudit
