import ProjectAudit.Proofs.Files.Resolving

/-!
# Paths that are resolved

The path of a location that is reached through directories alone is resolved already: each of its
names is asked about, and none is a link.  Its text is as long as its names and the slashes in front
of them, so whether it is short can be counted.  That is of no account here, since a path that is
refused as too long is no link either.

* `Path.length_of_encodeName_text`: the length of a path's text.
* `FileTree.linkAt?_of_long`: a path that is too long is taken for no link.
* `Host.resolve_ofLocation`: the path of a location is resolved to itself.
-/

namespace ProjectAudit

/-! ## The length of a path -/

namespace Path

/-- Names with a slash in front of each. -/
def slashed (ns : List FileName) : FileName :=
  ns.flatMap (47 :: ·)

theorem slashed_cons (n : FileName) (ns : List FileName) :
    slashed (n :: ns) = 47 :: n ++ slashed ns :=
  List.flatMap_cons

/-- Names with slashes between them have no slash in front. -/
theorem exists_encodeName_joined {names : List Text} {ns : List FileName} (hsome : names ≠ [])
    (h : List.Forall₂ (fun name n => encodeName name = .ok n) names ns) :
    ∃ bytes, encodeName (Text.joined "/" names) = .ok bytes ∧ 47 :: bytes = slashed ns := by
  induction h with
  | nil => exact absurd rfl hsome
  | @cons name n names ns hname hnames ih =>
    cases hnames with
    | nil => exact ⟨n, by rwa [Text.joined, List.intercalate_singleton], (List.append_nil _).symm⟩
    | cons hnext hrest =>
      obtain ⟨bytes, hbytes, hslashed⟩ := ih (List.cons_ne_nil _ _)
      have hslash : encodeName ("/" : Text) = .ok [47] := rfl
      refine ⟨n ++ [47] ++ bytes, ?_, ?_⟩
      · rw [Text.joined, List.intercalate_cons_cons]
        exact encodeName_append_eq_ok (encodeName_append_eq_ok hname hslash) hbytes
      · rw [slashed_cons, ← hslashed, List.append_assoc]
        rfl

/-- The length of the text of a path with names: all of them are counted with a slash, the first one
only if the path is anchored. -/
theorem length_of_encodeName_text {p : Path} (hsome : p.names ≠ []) {bytes : FileName}
    (h : encodeName p.text = .ok bytes) (hgiven : p.CanBeGiven) :
    bytes.length + 1 = (anchorText p.anchor).length + (slashed p.fileNames).length := by
  obtain ⟨joined, hjoined, hslashed⟩ := exists_encodeName_joined hsome (forall₂_fileNames hgiven)
  have htext : p.text = anchorText p.anchor ++ Text.joined "/" p.names := by
    rw [text, List.isEmpty_eq_false_iff.2 hsome, Bool.and_false, if_neg Bool.false_ne_true]
  rw [htext] at h
  have hanchor : ∃ front, encodeName (anchorText p.anchor) = .ok front ∧
      front.length = (anchorText p.anchor).length := by
    cases p.anchor with
    | relative => exact ⟨[], rfl, rfl⟩
    | root => exact ⟨[47], rfl, rfl⟩
    | doubleRoot => exact ⟨[47, 47], rfl, rfl⟩
  obtain ⟨front, hfront, hfrontLength⟩ := hanchor
  obtain rfl := Except.ok.inj (h.symm.trans (encodeName_append_eq_ok hfront hjoined))
  rw [List.length_append, hfrontLength, ← hslashed, List.length_cons]
  omega

/-- Whether a path with names is short can be counted. -/
theorem short_iff {p : Path} (hsome : p.names ≠ []) (hgiven : p.CanBeGiven) :
    p.Short ↔ (anchorText p.anchor).length + (slashed p.fileNames).length ≤ FileTree.pathLimit := by
  obtain ⟨bytes, hbytes, -⟩ := id hgiven
  have hlength := length_of_encodeName_text hsome hbytes hgiven
  constructor
  · intro hshort
    have hlt := hshort bytes hbytes
    omega
  · intro hle names hnames
    obtain rfl := Except.ok.inj (hnames.symm.trans hbytes)
    omega

theorem fileNames_ofLocation (l : Location) : (ofLocation l).fileNames = l.reverse :=
  fileNames_eq
    (List.forall₂_map_left_iff.2 (List.forall₂_same.2 fun n _ => encodeName_decodeName n))

theorem canBeGiven_ofLocation {l : Location} (h : ∀ n ∈ l, (0 : UInt8) ∉ n) :
    (ofLocation l).CanBeGiven := by
  rw [canBeGiven_iff]
  intro name hname
  obtain ⟨n, hn, rfl⟩ := List.mem_map.1 hname
  exact exists_encodeName_iff.1 ⟨n, encodeName_decodeName n, h n (List.mem_reverse.1 hn)⟩

theorem short_ofLocation_iff {l : Location} (hsome : l ≠ []) (hzero : ∀ n ∈ l, (0 : UInt8) ∉ n) :
    (ofLocation l).Short ↔ 1 + (slashed l).length ≤ FileTree.pathLimit := by
  have hnames : (ofLocation l).names ≠ [] := by simpa [ofLocation] using hsome
  have hreverse : (slashed l.reverse).length = (slashed l).length := by
    rw [slashed, slashed, List.length_flatMap, List.length_flatMap, List.map_reverse,
      List.sum_reverse]
  rw [short_iff hnames (canBeGiven_ofLocation hzero), fileNames_ofLocation, hreverse]
  rfl

end Path

namespace FileTree

variable {t : FileTree} {wd l : Location} {p : Path} {n : FileName}

/-- The file system refuses a path that is too long. -/
theorem locate_of_long (hgiven : p.CanBeGiven) (hlong : ¬ p.Short) (followLast : Bool) :
    t.locate wd followLast p = .error (.refused .nameTooLong p) := by
  obtain ⟨bytes, hbytes, hzero⟩ := hgiven
  have hlength : bytes.length ≥ pathLimit := by
    refine Nat.le_of_not_lt fun hlt => hlong fun names hnames => ?_
    rwa [Except.ok.inj (hnames.symm.trans hbytes)]
  rw [locate, hbytes]
  dsimp only
  rw [if_neg (by simpa using hzero), walkNames, if_pos hlength, mapError_error]

/-- A path that is too long is taken for no link, whatever stands there. -/
theorem linkAt?_of_long (hgiven : p.CanBeGiven) (hlong : ¬ p.Short) :
    t.linkAt? wd p = .ok none := by
  rw [linkAt?, locate_of_long hgiven hlong]

/-! ## Paths of locations -/

/-- A directory that is reached through directories alone is found to be no link. -/
theorem linkAt?_ofLocation (hwd : t.isDirectory wd = true) (h : t.Rooted (n :: l))
    (hgiven : (Path.ofLocation (n :: l)).CanBeGiven) :
    t.linkAt? wd (Path.ofLocation (n :: l)) = .ok none := by
  by_cases hshort : (Path.ofLocation (n :: l)).Short
  · cases h with
    | inside habove hname hslash hnode =>
      have hencode := encodeName_decodeName n
      rw [Path.ofLocation_cons] at hgiven hshort ⊢
      exact linkAt?_under hwd (habove.stands wd) habove.isDirectory
        (slash_notMem_of_encodeName hencode hslash) hencode hname hnode hshort hgiven
  · exact linkAt?_of_long hgiven hshort

/-- The names of directories are kept. -/
theorem resolveFrom_ofLocation (hwd : t.isDirectory wd = true) (h : t.Rooted l)
    (hzero : ∀ n ∈ l, (0 : UInt8) ∉ n) (depth : Nat) (rest : List Text) (seen : Followed) :
    t.resolveFrom wd (depth + 1) ⟨.root, []⟩ (l.reverse.map decodeName ++ rest) seen =
      t.resolveFrom wd (depth + 1) (Path.ofLocation l) rest seen := by
  induction h generalizing rest with
  | root => rfl
  | @inside l n habove hname hslash hnode ih =>
    have hlink := linkAt?_ofLocation hwd (habove.inside hname hslash hnode)
      (Path.canBeGiven_ofLocation hzero)
    have hencode := encodeName_decodeName n
    have hfree := slash_notMem_of_encodeName hencode hslash
    obtain ⟨⟨hproper, -⟩, hne⟩ := isName_of_isEntry hname hencode hfree
    rw [List.reverse_cons, List.map_append, List.append_assoc,
      ih (List.forall_mem_cons.1 hzero).2]
    rw [Path.ofLocation_cons] at hlink ⊢
    exact resolveFrom_plain hproper hne hlink

end FileTree

namespace Host

variable {h : Host} {l : Location}

/-- The path of a location leads there, if it is short. -/
theorem find_ofLocation (hwd : h.tree.isDirectory h.workingDirectory = true)
    (hrooted : h.tree.Rooted l) (hzero : ∀ n ∈ l, (0 : UInt8) ∉ n)
    (hshort : (Path.ofLocation l).Short) : h.find (Path.ofLocation l) = .ok l := by
  have hstands := hrooted.stands h.workingDirectory
  have hwalk := hstands.walk true FileTree.linkBudget []
  rw [List.append_nil] at hwalk
  exact find_eq_ok_iff.2 ((spot_eq_ok_iff_walk hwd hstands.proper).2
    ⟨Path.canBeGiven_ofLocation hzero, hshort, hwalk⟩)

/-- The result is asked for once more, and no refusal but that of a loop is of account. -/
theorem resolve_of_spot {p q : Path} (hgiven : q.CanBeGiven)
    (hresolved : h.tree.resolved h.workingDirectory p = .ok q)
    (hspot : q.Short → (∃ spot, h.spot q = .ok spot) ∨ h.spot q = .error (.refused .noEntry q)) :
    h.resolve p = .ok q := by
  rw [resolve, FileTree.resolve, hresolved, ok_bind, ← spot]
  by_cases hshort : q.Short
  · rcases hspot hshort with ⟨spot, hspot⟩ | hspot
    · rw [hspot]
      rfl
    · rw [hspot]
      rfl
  · rw [spot, FileTree.locate_of_long hgiven hshort]
    rfl

/-- A path that is resolved to that of a location, but for the last look at what is there. -/
theorem resolve_of_resolved {p : Path} (hwd : h.tree.isDirectory h.workingDirectory = true)
    (hrooted : h.tree.Rooted l) (hzero : ∀ n ∈ l, (0 : UInt8) ∉ n)
    (hresolved : h.tree.resolved h.workingDirectory p = .ok (Path.ofLocation l)) :
    h.resolve p = .ok (Path.ofLocation l) := by
  refine resolve_of_spot (Path.canBeGiven_ofLocation hzero) hresolved fun hshort => .inl ?_
  exact ⟨_, find_eq_ok_iff.1 (find_ofLocation hwd hrooted hzero hshort)⟩

/-- Names that are followed to the path of a location are resolved to it. -/
theorem resolve_of_resolveFrom {p : Path} {seen : FileTree.Followed}
    (hwd : h.tree.isDirectory h.workingDirectory = true) (hrooted : h.tree.Rooted l)
    (hzero : ∀ n ∈ l, (0 : UInt8) ∉ n)
    (hfollow : h.tree.resolveFrom h.workingDirectory FileTree.maxNesting
      (if p.anchor = .relative then {} else ⟨.root, []⟩) p.names [] =
        .ok (.path (Path.ofLocation l), seen)) :
    h.resolve p = .ok (Path.ofLocation l) := by
  have habsolute : (Path.ofLocation l).absolute h.workingDirectory = Path.ofLocation l :=
    hrooted.literal_ofLocation
  refine resolve_of_resolved hwd hrooted hzero ?_
  rw [FileTree.resolved, hfollow, ok_bind]
  exact congrArg Except.ok habsolute

/-- The path of no names stands for the working directory. -/
theorem resolve_workingDirectory (hwd : h.tree.Rooted h.workingDirectory)
    (hzero : ∀ n ∈ h.workingDirectory, (0 : UInt8) ∉ n) :
    h.resolve {} = .ok (Path.ofLocation h.workingDirectory) := by
  have habsolute : ({} : Path).absolute h.workingDirectory =
      Path.ofLocation h.workingDirectory := by
    rw [Path.absolute, Path.join, if_pos rfl, List.append_nil]
    exact hwd.literal_ofLocation
  refine resolve_of_resolved hwd.isDirectory hwd hzero ?_
  show Except.ok (({} : Path).absolute h.workingDirectory) = _
  rw [habsolute]

/-- **The path of a location is resolved to itself**, if the location is reached through directories
alone. -/
theorem resolve_ofLocation (hwd : h.tree.isDirectory h.workingDirectory = true)
    (hrooted : h.tree.Rooted l) (hzero : ∀ n ∈ l, (0 : UInt8) ∉ n) :
    h.resolve (Path.ofLocation l) = .ok (Path.ofLocation l) := by
  have hall := FileTree.resolveFrom_ofLocation hwd hrooted hzero (FileTree.maxNesting - 1) [] []
  rw [List.append_nil] at hall
  exact resolve_of_resolveFrom hwd hrooted hzero hall

end Host

end ProjectAudit
