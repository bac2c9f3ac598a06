import ProjectAudit.Audit.Checklist
import ProjectAudit.Proofs.Files.Missing

/-!
# The search for a checklist upward

The search for a checklist begins in the directory that a path stands for, and goes up from there.
In each directory it asks for a file of the usual name.  It ends at the first one, or at the root,
which is its own parent, or at a question that has no answer.

A directory above a path has the first of its names, so the directories that are passed are the
prefixes of the path, each with one name less than the one before.  What the search ends with does
not depend on where it begins below the first file: as long as all questions in between are answered
with no, it comes to the directory of that file, and goes on from there as from its own beginning.

The one question without an answer is that for a path which the file system refuses as too long.  It
can be asked though no longer path was given, for the path that is resolved is absolute, and the
usual name comes behind it.

* `Climbs`: what the search ends with, one step after the other.
* `Climbs.of_encloses`: directories without a file of the usual name are passed.
* `climbs_iff_endsBy`: what the search ends with, by the first question not answered with no.
* `findChecklist_nearest`: the search ends with the nearest file, or with nothing if there is none.
* `findChecklist_long`: a search that is refused, though there is a file above.
-/

namespace ProjectAudit

/-! ## The directories that are searched -/

namespace Path

/-- The directories that are searched from a path on. -/
def searched (p : Path) : List Path :=
  if p.names.isEmpty then [p] else p :: p.ancestors

theorem searched_under (p : Path) (name : Text) :
    (p.under name).searched = p.under name :: p.searched := by
  rw [searched, if_neg (by simp [under]), ancestors, under, List.reverse_append,
    List.reverse_singleton, List.singleton_append]
  congr 1
  induction p using under_induction with
  | bare anchor => rfl
  | under p last _ =>
    rw [searched, if_neg (by simp [under]), ancestors, under, List.reverse_append,
      List.reverse_singleton, List.singleton_append, ancestorsOf, List.reverse_cons,
      List.reverse_reverse]

end Path

/-! ## One step after the other -/

/-- What a search upward from a directory ends with. -/
inductive Climbs (h : Host) : Path → Except PathFault (Option Path) → Prop
  /-- There is a file of the usual name. -/
  | found {d : Path} (hfile : h.isFile (d.child checklistName) = .ok true) :
    Climbs h d (.ok (some (d.child checklistName)))
  /-- There is none, and no directory is above. -/
  | top {d : Path} (hfile : h.isFile (d.child checklistName) = .ok false) (htop : d.parent = d) :
    Climbs h d (.ok none)
  /-- There is none, and the search goes on in the directory above. -/
  | up {d : Path} {r : Except PathFault (Option Path)}
    (hfile : h.isFile (d.child checklistName) = .ok false) (hup : d.parent ≠ d)
    (hrest : Climbs h d.parent r) : Climbs h d r
  /-- It cannot be said if there is one. -/
  | unanswered {d : Path} {fault : PathFault}
    (hfile : h.isFile (d.child checklistName) = .error fault) : Climbs h d (.error fault)

variable {h : Host} {d outer place start directory : Path} {name : Text}
  {r r' : Except PathFault (Option Path)} {answer : Except PathFault Bool}

/-- A directory without a file of the usual name is passed. -/
theorem Climbs.under (hfile : h.isFile ((d.under name).child checklistName) = .ok false)
    (hr : Climbs h d r) : Climbs h (d.under name) r :=
  .up hfile (Path.parent_ne_under d name) ((Path.parent_under d name).symm ▸ hr)

/-- **The search comes to an end**, from every directory. -/
theorem climbs_firstChecklist (h : Host) (d : Path) : Climbs h d (firstChecklist h d.searched) := by
  induction d using Path.under_induction with
  | bare anchor =>
    rw [show Path.searched ⟨anchor, []⟩ = [⟨anchor, []⟩] from rfl, firstChecklist]
    rcases hfile : h.isFile (Path.child ⟨anchor, []⟩ checklistName) with fault | (_ | _)
    · exact .unanswered hfile
    · exact .top hfile rfl
    · exact .found hfile
  | under p name ih =>
    rw [Path.searched_under, firstChecklist]
    rcases hfile : h.isFile ((p.under name).child checklistName) with fault | (_ | _)
    · exact .unanswered hfile
    · exact .under hfile ih
    · exact .found hfile

/-- It ends in one way only. -/
theorem Climbs.unique (hr : Climbs h d r) (hr' : Climbs h d r') : r = r' := by
  induction hr with
  | found hfile =>
    cases hr' with
    | found => rfl
    | top hfile' | up hfile' | unanswered hfile' => cases hfile.symm.trans hfile'
  | top hfile htop =>
    cases hr' with
    | top => rfl
    | up _ hup => exact absurd htop hup
    | found hfile' | unanswered hfile' => cases hfile.symm.trans hfile'
  | up hfile hup _ ih =>
    cases hr' with
    | up _ _ hrest => exact ih hrest
    | top _ htop => exact absurd htop hup
    | found hfile' | unanswered hfile' => cases hfile.symm.trans hfile'
  | unanswered hfile =>
    cases hr' with
    | unanswered hfile' => exact congrArg Except.error (Except.error.inj (hfile.symm.trans hfile'))
    | found hfile' | top hfile' | up hfile' => cases hfile.symm.trans hfile'

theorem climbs_iff : Climbs h d r ↔ firstChecklist h d.searched = r := by
  constructor
  · exact fun hr => (climbs_firstChecklist h d).unique hr
  · rintro rfl
    exact climbs_firstChecklist h d

/-! ## The nearest file -/

/-- Going up from a path, no directory short of an outer one has a file of the usual name. -/
def NoneBelow (h : Host) (d outer : Path) : Prop :=
  ∀ between : Path, between.Encloses d → outer.names.length < between.names.length →
    h.isFile (between.child checklistName) = .ok false

/-- **Directories without a file of the usual name are passed.** -/
theorem Climbs.of_encloses (hencloses : outer.Encloses d) (hnone : NoneBelow h d outer)
    (hr : Climbs h outer r) : Climbs h d r := by
  induction d using Path.under_induction with
  | bare anchor =>
    obtain rfl := (Path.encloses_of_names_eq_nil rfl).1 hencloses
    exact hr
  | under p name ih =>
    rcases Path.encloses_under.1 hencloses with rfl | hparent
    · exact hr
    · have hlonger : outer.names.length < (p.under name).names.length := by
        have hle := hparent.length_le
        simp only [Path.under, List.length_append, List.length_singleton]
        omega
      refine .under (hnone _ (.refl _) hlonger) (ih hparent fun between hbetween => ?_)
      exact hnone between (Path.encloses_under.2 (.inr hbetween))

/-- Going up from a path, a directory is the first at which the answer is not no. -/
structure FirstAnswer (h : Host) (d outer : Path) (answer : Except PathFault Bool) : Prop where
  encloses : outer.Encloses d
  answer : h.isFile (outer.child checklistName) = answer
  none_below : NoneBelow h d outer

theorem FirstAnswer.self (hanswer : h.isFile (d.child checklistName) = answer) :
    FirstAnswer h d d answer where
  encloses := .refl d
  answer := hanswer
  none_below _ hbetween hlonger := absurd hbetween.length_le (Nat.not_le_of_lt hlonger)

/-- The directories that are passed on the way do not matter. -/
theorem FirstAnswer.under (hfile : h.isFile ((d.under name).child checklistName) = .ok false)
    (hfirst : FirstAnswer h d outer answer) : FirstAnswer h (d.under name) outer answer where
  encloses := Path.encloses_under.2 (.inr hfirst.encloses)
  answer := hfirst.answer
  none_below between hbetween hlonger := by
    rcases Path.encloses_under.1 hbetween with rfl | hbetween
    · exact hfile
    · exact hfirst.none_below between hbetween hlonger

/-- What a search ends with comes of the first answer, or there is none but no. -/
def EndsBy (h : Host) (d : Path) : Except PathFault (Option Path) → Prop
  | .ok (some place) =>
    ∃ outer, FirstAnswer h d outer (.ok true) ∧ place = outer.child checklistName
  | .ok none => ∀ outer : Path, outer.Encloses d → h.isFile (outer.child checklistName) = .ok false
  | .error fault => ∃ outer, FirstAnswer h d outer (.error fault)

theorem EndsBy.under (hfile : h.isFile ((d.under name).child checklistName) = .ok false)
    (hends : EndsBy h d r) : EndsBy h (d.under name) r := by
  rcases r with fault | (_ | place)
  · obtain ⟨outer, hfirst⟩ := hends
    exact ⟨outer, hfirst.under hfile⟩
  · intro outer hencloses
    rcases Path.encloses_under.1 hencloses with rfl | hencloses
    · exact hfile
    · exact hends outer hencloses
  · obtain ⟨outer, hfirst, hplace⟩ := hends
    exact ⟨outer, hfirst.under hfile, hplace⟩

theorem Climbs.endsBy (hr : Climbs h d r) : EndsBy h d r := by
  induction d using Path.under_induction with
  | bare anchor =>
    cases hr with
    | found hfile => exact ⟨_, .self hfile, rfl⟩
    | top hfile =>
      intro outer hencloses
      obtain rfl := (Path.encloses_of_names_eq_nil rfl).1 hencloses
      exact hfile
    | up _ hup => exact absurd rfl hup
    | unanswered hfile => exact ⟨_, .self hfile⟩
  | under p name ih =>
    cases hr with
    | found hfile => exact ⟨_, .self hfile, rfl⟩
    | top _ htop => exact absurd htop (Path.parent_ne_under p name)
    | up hfile _ hrest => exact .under hfile (ih (Path.parent_under p name ▸ hrest))
    | unanswered hfile => exact ⟨_, .self hfile⟩

/-- **What the search ends with** is the file in the deepest directory that has one, or nothing if
no directory has one, unless a question without an answer comes before. -/
theorem climbs_iff_endsBy : Climbs h d r ↔ EndsBy h d r := by
  refine ⟨Climbs.endsBy, fun hends => ?_⟩
  rcases r with fault | (_ | place)
  · obtain ⟨outer, hfirst⟩ := hends
    exact .of_encloses hfirst.encloses hfirst.none_below (.unanswered hfirst.answer)
  · have hroot : Path.Encloses ⟨d.anchor, []⟩ d := ⟨rfl, List.nil_prefix⟩
    exact .of_encloses hroot (fun between hbetween _ => hends between hbetween)
      (.top (hends _ hroot) rfl)
  · obtain ⟨outer, hfirst, rfl⟩ := hends
    exact .of_encloses hfirst.encloses hfirst.none_below (.found hfirst.answer)

/-! ## The search from a path -/

/-- The directory from which the search is made: the path itself if a directory stands there, and
its parent otherwise. -/
def searchBase (h : Host) (start : Path) : Path :=
  if h.isDirectory start = .ok true then start else start.parent

/-- A search that begins at no file goes up from its base. -/
theorem findChecklist_eq (hfile : h.isFile start = .ok false)
    (hresolve : h.resolve (searchBase h start) = .ok directory) :
    findChecklist h start = firstChecklist h directory.searched := by
  obtain ⟨b, hdirectory⟩ := Host.exists_isDirectory_of_isFile hfile
  have hbase : searchBase h start = if b then start else start.parent := by
    rw [searchBase, hdirectory]
    cases b <;> rfl
  rw [hbase] at hresolve
  rw [findChecklist, hfile, ok_bind, if_neg Bool.false_ne_true, hdirectory, ok_bind]
  dsimp only
  rw [hresolve, ok_bind, Path.searched]

/-- **The nearest checklist.**  A search from a path that is no file goes up from the directory that
the path, or its parent, is resolved to, one step after the other, and comes to an end.  It ends
with the file in the deepest directory that has one; with nothing exactly if no directory has one;
and with a fault exactly if a place that is too long comes before any file.  From another directory
below the one where it ends, with no such file in between, it ends with the same. -/
theorem findChecklist_nearest (hfile : h.isFile start = .ok false)
    (hresolve : h.resolve (searchBase h start) = .ok directory) :
    Climbs h directory (findChecklist h start) ∧
      (∀ place, findChecklist h start = .ok (some place) ↔
        ∃ outer, FirstAnswer h directory outer (.ok true) ∧ place = outer.child checklistName) ∧
      (findChecklist h start = .ok none ↔
        ∀ outer : Path, outer.Encloses directory →
          h.isFile (outer.child checklistName) = .ok false) ∧
      (∀ fault, findChecklist h start = .error fault ↔
        ∃ outer, FirstAnswer h directory outer (.error fault) ∧
          h.TooLong (outer.child checklistName) ∧
          fault = .refused .nameTooLong (outer.child checklistName)) ∧
      ∀ outer answer other resolved, FirstAnswer h directory outer answer →
        h.isDirectory other = .ok true → h.resolve other = .ok resolved →
        outer.Encloses resolved → NoneBelow h resolved outer →
        findChecklist h other = findChecklist h start := by
  have hsearch := findChecklist_eq hfile hresolve
  have hclimbs : ∀ r, findChecklist h start = r ↔ EndsBy h directory r := fun r => by
    rw [hsearch, ← climbs_iff, climbs_iff_endsBy]
  refine ⟨climbs_iff.2 hsearch.symm, fun place => hclimbs _, hclimbs _, fun fault => ?_, ?_⟩
  · rw [hclimbs]
    refine exists_congr fun outer => (and_iff_left_of_imp fun hfirst => ?_).symm
    exact Host.tooLong_of_holdsAt hfirst.answer
  · intro outer answer other resolved hfirst hdirectory hother hencloses hnone
    have hbase : searchBase h other = other := if_pos hdirectory
    have hbelow : findChecklist h other = firstChecklist h resolved.searched :=
      findChecklist_eq (Host.isFile_of_isDirectory hdirectory) (hbase.symm ▸ hother)
    have houter := climbs_firstChecklist h outer
    rw [hbelow, hsearch, climbs_iff.1 (houter.of_encloses hencloses hnone),
      climbs_iff.1 (houter.of_encloses hfirst.encloses hfirst.none_below)]

/-- The path leads through a link, and its last name is missing.  What the link leads to has no
checklist; in the directory above it the checklist is a link to a file.  It is found from that
directory too. -/
theorem findChecklist_nearest_linked :
    let name := Text.Utf8.encodeString ".culture"
    let h : Host := {
      workingDirectory := [[119]]
      tree := ⟨[([[119]], .directory), ([[100], [119]], .directory),
        ([name, [119]], .link [47, 114]), ([[114]], .file []), ([[115]], .link [119, 47, 100])]⟩ }
    let start := Path.ofText "../s/m"
    h.isFile start = .ok false ∧ h.resolve (searchBase h start) = .ok (.ofText "/w/d") ∧
      findChecklist h start = .ok (some (.ofText "/w/.culture")) ∧
      findChecklist h {} = .ok (some (.ofText "/w/.culture")) := by
  intro name h start
  have hfile : h.isFile start = .ok false := by decide +kernel
  have hresolve : h.resolve (searchBase h start) = .ok (.ofText "/w/d") := by decide +kernel
  have habove : FirstAnswer h (.ofText "/w") (.ofText "/w") (.ok true) := .self (by decide +kernel)
  have hpassed : h.isFile ((Path.under (.ofText "/w") "d").child checklistName) = .ok false := by
    decide +kernel
  have hfirst : FirstAnswer h (.ofText "/w/d") (.ofText "/w") (.ok true) := habove.under hpassed
  obtain ⟨-, hfound, -, -, hsame⟩ := findChecklist_nearest hfile hresolve
  have hfind : findChecklist h start = .ok (some (.ofText "/w/.culture")) :=
    (hfound _).2 ⟨_, hfirst, by decide +kernel⟩
  have hbelow := hsame _ _ {} (.ofText "/w") hfirst (by decide +kernel) (by decide +kernel)
    (.refl _) habove.none_below
  exact ⟨hfile, hresolve, hfind, hbelow.trans hfind⟩

/-! ## Places that are too long -/

/-- A path of so many names of one letter. -/
def lettersPath (anchor : Anchor) (count : Nat) : Path :=
  ⟨anchor, List.replicate count "a"⟩

variable {anchor : Anchor} {count : Nat}

theorem fileNames_lettersPath : (lettersPath anchor count).fileNames = List.replicate count [97] :=
  List.filterMap_replicate_of_some rfl

theorem canBeGiven_lettersPath : (lettersPath anchor count).CanBeGiven :=
  Path.canBeGiven_iff.2 fun name hname => by
    obtain rfl := List.eq_of_mem_replicate hname
    exact exists_encodeName_iff.1 ⟨[97], rfl, by decide⟩

/-- Each name is counted with a slash. -/
theorem length_slashed_lettersPath :
    (Path.slashed (lettersPath anchor count).fileNames).length = 2 * count := by
  rw [fileNames_lettersPath, Path.slashed, List.length_flatMap, List.map_replicate,
    List.sum_replicate_nat]
  exact Nat.mul_comm count 2

theorem short_lettersPath (hcount : 2 * (count + 1) ≤ FileTree.pathLimit) :
    (lettersPath .relative (count + 1)).Short := by
  refine (Path.short_iff (List.cons_ne_nil _ _) canBeGiven_lettersPath).2 ?_
  rw [length_slashed_lettersPath]
  exact Nat.le_trans (Nat.le_of_eq (Nat.zero_add _)) hcount

theorem astray_lettersPath {t : FileTree} (hnone : t.node? [[97]] = none) :
    t.Astray [] (lettersPath anchor (count + 1)) where
  proper name hname := by
    obtain rfl := List.eq_of_mem_replicate hname
    exact ⟨by decide, by decide⟩
  given := canBeGiven_lettersPath
  missing := by
    have hstart : FileTree.startIn [] (lettersPath anchor (count + 1)) = [] := ite_self []
    refine ⟨"a", List.replicate count "a", [97], rfl, rfl, ⟨rfl, by decide, by decide⟩, ?_⟩
    rw [hstart]
    exact hnone

/-- The place for a checklist behind so many names is too long. -/
theorem tooLong_lettersPath (h : Host) (hcount : FileTree.pathLimit < 1 + (2 * count + 9)) :
    h.TooLong ((lettersPath .root count).child checklistName) := by
  have hencode : encodeName (".culture" : Text) = .ok (Text.Utf8.encodeString ".culture") := by rfl
  have hlast : (Path.slashed [Text.Utf8.encodeString ".culture"]).length = 9 := by decide +kernel
  have hgiven : ((lettersPath .root count).under ".culture").CanBeGiven := by
    have hletters : ∀ name ∈ (lettersPath .root count).names, ∀ c ∈ name, c.CanBeGiven :=
      Path.canBeGiven_iff.1 canBeGiven_lettersPath
    exact Path.canBeGiven_iff.2 (List.forall_mem_append.2 ⟨hletters, List.forall_mem_singleton.2
      (exists_encodeName_iff.1 ⟨_, hencode, by decide +kernel⟩)⟩)
  refine FileTree.locate_of_long hgiven (fun hshort => ?_) true
  rw [Path.short_iff (List.append_ne_nil_of_right_ne_nil _ (List.cons_ne_nil _ _)) hgiven,
    Path.fileNames_under _ hencode, Path.slashed, List.flatMap_append, List.length_append,
    ← Path.slashed, ← Path.slashed, length_slashed_lettersPath, hlast] at hshort
  exact Nat.not_le_of_lt hcount hshort

/-- **A search that is refused.**  There is a checklist in the root, and nothing else in the tree.
The path from which the search begins is short enough to be asked about, and its parent is resolved,
with all its names kept.  But with the usual name behind it that place is too long, so it cannot be
said whether a file is there, and the one in the root is never asked for. -/
theorem findChecklist_long :
    let h : Host := { tree := ⟨[([Text.Utf8.encodeString ".culture"], .file [])]⟩ }
    let start := lettersPath .relative 2046
    h.isFile start = .ok false ∧ searchBase h start = lettersPath .relative 2045 ∧
      h.resolve (searchBase h start) = .ok (lettersPath .root 2045) ∧
      h.isFile (Path.child ⟨.root, []⟩ checklistName) = .ok true ∧
      findChecklist h start =
        .error (.refused .nameTooLong ((lettersPath .root 2045).child checklistName)) := by
  intro h start
  have hwd : h.tree.isDirectory h.workingDirectory = true := FileTree.Rooted.root.isDirectory
  have hnone : h.tree.node? [[97]] = none := by decide +kernel
  have hnothing : ∀ condition, h.holdsAt start condition = .ok false :=
    Host.holdsAt_of_astray (astray_lettersPath hnone) hwd (short_lettersPath (by decide))
  have hbase : searchBase h start = lettersPath .relative 2045 := by
    rw [searchBase, Host.isDirectory, hnothing, if_neg (by decide)]
    exact congrArg (Path.mk .relative) List.dropLast_replicate
  have hresolve : h.resolve (searchBase h start) = .ok (lettersPath .root 2045) := by
    rw [hbase]
    refine Host.resolve_of_astray (astray_lettersPath hnone) rfl rfl fun habove => ?_
    exact absurd (List.eq_of_mem_replicate habove) (by decide)
  refine ⟨hnothing _, hbase, hresolve, by decide +kernel, ?_⟩
  rw [findChecklist_eq (hnothing _) hresolve]
  exact climbs_iff.1 (.unanswered ((tooLong_lettersPath h (by decide)).holdsAt_eq _))

end ProjectAudit
