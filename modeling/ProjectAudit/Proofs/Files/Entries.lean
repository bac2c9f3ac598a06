import ProjectAudit.Proofs.Files.Linked
import ProjectAudit.Proofs.Files.Relisting
import ProjectAudit.Proofs.Files.Scanning

/-!
# A scan and the entries of a directory

A scan goes through the entries of a directory in the order in which they are handed out.  It ends
with the first matching entry that counts, and remembers whether one before could not be inspected.
So what it comes to could depend on the order, and on entries that are neither; it does not, since
it is decided by whether there is an entry of each of the two kinds.

What the kinds are can be said of the tree.  An entry counts if it is a file or a link to one, and,
where empty files do not count, it is not empty and its size can be asked for.  An entry cannot be
inspected if something has to be asked about it and the file system refuses its path for another
reason than that nothing is there.  For an entry that is no link there is one such reason, which is
that its path is too long.

* `Host.lookThrough_eq_of_relevant`: a listing is gone through with the same outcome if the entries
  of the two kinds in it are the same.
* `Host.find_entry`: how the path of an entry is answered that is no link.
* `Host.scan_decides`: a scan comes to what the entries of the directory are.
* `Host.scan_roundabout`: a file that is not empty is not found by a path that is too long.
-/

namespace ProjectAudit

/-- The name can be kept in a directory of a file system. -/
structure FileName.CanBeKept (n : FileName) : Prop extends n.IsEntry where
  slash_free : ∀ b ∈ n, FileName.isSlash b = false
  zero_notMem : (0 : UInt8) ∉ n

/-- All names in the tree can be kept by a file system. -/
def FileTree.KeepsNames (t : FileTree) : Prop :=
  ∀ l, ∀ n ∈ t.namesIn l, n.CanBeKept

theorem FileName.canBeKept_iff {n : FileName} :
    n.CanBeKept ↔ (FileName.isProper n = true ∧ n ≠ FileName.above ∧
      n.length ≤ FileTree.maxNameBytes) ∧ n.any FileName.isSlash = false ∧ (0 : UInt8) ∉ n := by
  have hslash : n.any FileName.isSlash = false ↔ ∀ b ∈ n, FileName.isSlash b = false := by
    simp only [List.any_eq_false, Bool.not_eq_true]
  rw [hslash]
  exact ⟨fun h => ⟨⟨h.proper, h.ne_above, h.length_le⟩, h.slash_free, h.zero_notMem⟩,
    fun ⟨⟨hproper, hne, hlength⟩, hslash, hzero⟩ => ⟨⟨hproper, hne, hlength⟩, hslash, hzero⟩⟩

instance (n : FileName) : Decidable n.CanBeKept :=
  decidable_of_iff' _ FileName.canBeKept_iff

/-- The text of a name that can be kept is one name. -/
theorem FileName.CanBeKept.isName {n : FileName} (h : n.CanBeKept) : IsName (decodeName n) :=
  (FileTree.isName_of_isEntry h.toIsEntry (encodeName_decodeName n)
    (slash_notMem_of_encodeName (encodeName_decodeName n) h.slash_free)).1

theorem FileName.CanBeKept.child_eq {n : FileName} (h : n.CanBeKept) (p : Path) :
    p.child (decodeName n) = p.under (decodeName n) :=
  p.child_eq_under h.isName

theorem FileTree.mem_namesIn {t : FileTree} {l : Location} {n : FileName} :
    n ∈ t.namesIn l ↔ ∃ node, (n :: l, node) ∈ t.entries := by
  rw [namesIn, List.mem_filterMap]
  constructor
  · rintro ⟨⟨m, node⟩, hmem, hname⟩
    cases m with
    | nil => cases hname
    | cons name parent =>
      obtain ⟨rfl, hsame⟩ := Option.ite_none_right_eq_some.1 hname
      obtain rfl := Option.some.inj hsame
      exact ⟨node, hmem⟩
  · rintro ⟨node, hmem⟩
    exact ⟨_, hmem, if_pos rfl⟩

theorem FileTree.keepsNames_of_entries {t : FileTree}
    (h : ∀ e ∈ t.entries, ∀ n ∈ e.1, FileName.CanBeKept n) : t.KeepsNames := by
  intro l n hn
  obtain ⟨node, hmem⟩ := FileTree.mem_namesIn.1 hn
  exact h _ hmem n List.mem_cons_self

namespace Host

variable {h : Host} {accepts : Text → Bool} {nonempty : Bool} {directory p : Path} {l m : Location}
  {name : FileName} {node : Node} {content : List UInt8}

/-! ## Going through a listing -/

/-- What going through the names of a listing comes to, given whether a matching entry before could
not be inspected. -/
def lookThrough (accepts : Text → Bool) (inspect : FileName → Inspection) :
    (unreadable : Bool) → List FileName → Outcome
  | unreadable, [] => if unreadable then .undetermined else .failure
  | unreadable, name :: rest =>
    if accepts (decodeName name) then
      match inspect name with
      | .counts => .success
      | .ignored => lookThrough accepts inspect unreadable rest
      | .unreadable => lookThrough accepts inspect true rest
    else lookThrough accepts inspect unreadable rest

/-- The outcome depends on which of the two kinds of entries are seen, not on how often or in which
order. -/
theorem scanOutcome_congr {seen seen' : List Inspection}
    (h : ∀ shown, shown ≠ .ignored → (shown ∈ seen ↔ shown ∈ seen')) :
    scanOutcome seen = scanOutcome seen' := by
  have hcounts : seen.contains .counts = seen'.contains .counts := by
    rw [Bool.eq_iff_iff, List.contains_iff_mem, List.contains_iff_mem, h .counts nofun]
  have hunreadable : seen.contains .unreadable = seen'.contains .unreadable := by
    rw [Bool.eq_iff_iff, List.contains_iff_mem, List.contains_iff_mem, h .unreadable nofun]
  rw [scanOutcome, hcounts, hunreadable, scanOutcome]

/-- **Going through a listing** comes to what its matching entries are, and what was remembered. -/
theorem lookThrough_eq_scanOutcome (inspect : FileName → Inspection) (unreadable : Bool)
    (listing : List FileName) :
    lookThrough accepts inspect unreadable listing =
      scanOutcome ((if unreadable then [.unreadable] else []) ++
        (listing.filter fun name => accepts (decodeName name)).map inspect) := by
  induction listing generalizing unreadable with
  | nil => cases unreadable <;> rfl
  | cons name rest ih =>
    rw [lookThrough]
    by_cases haccepted : accepts (decodeName name) = true
    · rw [if_pos haccepted, List.filter_cons, if_pos haccepted, List.map_cons]
      cases hinspect : inspect name with
      | counts => exact (scanOutcome_eq_success_iff.2 (by simp)).symm
      | ignored =>
        dsimp only
        rw [ih]
        refine scanOutcome_congr fun shown hshown => ?_
        simp [hshown]
      | unreadable =>
        dsimp only
        rw [ih]
        refine scanOutcome_congr fun shown _ => ?_
        cases unreadable <;> simp
    · rw [if_neg haccepted, List.filter_cons, if_neg haccepted, ih]

/-- Listings are gone through with the same outcome if the matching entries in them that are not
ignored are the same. -/
theorem lookThrough_eq_of_relevant {inspect : FileName → Inspection}
    {listing listing' : List FileName}
    (h : ∀ name, accepts (decodeName name) = true → inspect name ≠ .ignored →
      (name ∈ listing ↔ name ∈ listing')) :
    lookThrough accepts inspect false listing = lookThrough accepts inspect false listing' := by
  rw [lookThrough_eq_scanOutcome, lookThrough_eq_scanOutcome]
  refine scanOutcome_congr fun shown hshown => ?_
  simp only [Bool.false_eq_true, if_false, List.nil_append, List.mem_map, List.mem_filter]
  refine exists_congr fun name => and_congr_left ?_
  rintro rfl
  exact and_congr_left fun haccepted => h name haccepted hshown

theorem scanOutcome_eq_undetermined_iff {seen : List Inspection} :
    scanOutcome seen = .undetermined ↔ .counts ∉ seen ∧ .unreadable ∈ seen := by
  rw [scanOutcome]
  split
  · simp_all
  · split <;> simp_all

theorem scanOutcome_eq_failure_iff {seen : List Inspection} :
    scanOutcome seen = .failure ↔ .counts ∉ seen ∧ .unreadable ∉ seen := by
  rw [scanOutcome]
  split
  · simp_all
  · split <;> simp_all

/-! ## What an entry is -/

/-- What stands at an entry is a file of this content, be it the entry itself or what it leads to as
a link. -/
inductive ShowsFile (h : Host) (directory : Path) (l : Location) (name : FileName)
    (content : List UInt8) : Prop
  | itself (hnode : h.tree.node? (name :: l) = some (.file content))
  | linked {target : FileName} {m : Location}
    (hnode : h.tree.node? (name :: l) = some (.link target))
    (hlink : h.find (directory.child (decodeName name)) = .ok m)
    (hfile : h.tree.node? m = some (.file content))

/-- The entry is a file or a link to one, and where an empty file does not count, its size can be
asked for and is above zero. -/
def EntryCounts (h : Host) (nonempty : Bool) (directory : Path) (l : Location) (name : FileName) :
    Prop :=
  ∃ content, h.ShowsFile directory l name content ∧
    (nonempty = true → content ≠ [] ∧ ∃ m, h.find (directory.child (decodeName name)) = .ok m)

/-- The entry has to be asked about, being a link, or a file whose size matters, and its path is
refused for another reason than that nothing is there. -/
def EntryUnreadable (h : Host) (nonempty : Bool) (directory : Path) (l : Location)
    (name : FileName) : Prop :=
  ((∃ target, h.tree.node? (name :: l) = some (.link target)) ∨
    nonempty = true ∧ ∃ content, h.tree.node? (name :: l) = some (.file content)) ∧
  ∃ e, e ≠ .noEntry ∧ h.find (directory.child (decodeName name)) =
    .error (.refused e (directory.child (decodeName name)))

theorem canBeGiven_child (hgiven : directory.CanBeGiven) (hname : name.CanBeKept) :
    (directory.child (decodeName name)).CanBeGiven := by
  rw [Path.canBeGiven_iff] at hgiven ⊢
  rw [hname.child_eq]
  intro text htext
  rcases List.mem_append.1 htext with htext | htext
  · exact hgiven text htext
  · obtain rfl := List.mem_singleton.1 htext
    exact exists_encodeName_iff.1 ⟨name, encodeName_decodeName name, hname.zero_notMem⟩

/-- A path that can be given and leads nowhere is refused. -/
theorem refused_of_find_eq_error {fault : PathFault} (hgiven : p.CanBeGiven)
    (hfault : h.find p = .error fault) : ∃ e, fault = .refused e p := by
  obtain ⟨names, hnames, hzero⟩ := hgiven
  have hspot : h.spot p =
      (h.tree.walkNames h.workingDirectory true names).mapError (.refused · p) := by
    rw [spot, FileTree.locate, hnames]
    exact if_neg (by simpa using hzero)
  rw [find, hspot] at hfault
  rcases hwalk : h.tree.walkNames h.workingDirectory true names with e | (l | ⟨parent, last⟩)
  · rw [hwalk, mapError_error] at hfault
    exact ⟨e, (Except.error.inj hfault).symm⟩
  · rw [hwalk, mapError_ok] at hfault
    cases hfault
  · rw [hwalk, mapError_ok] at hfault
    exact ⟨.noEntry, (Except.error.inj hfault).symm⟩

section Directory

variable (hwd : h.tree.isDirectory h.workingDirectory = true) (hp : directory.Proper)
  (hfind : h.find directory = .ok l) (hhere : h.tree.isDirectory l = true)
  (hname : name.CanBeKept)

include hwd hp hfind hhere hname

/-- **An entry that is no link** is found by its path, unless that is too long. -/
theorem find_entry (hnode : h.tree.node? (name :: l) = some node) (hplain : node.IsPlain) :
    h.find (directory.child (decodeName name)) = .ok (name :: l) ∨
      h.find (directory.child (decodeName name)) =
        .error (.refused .nameTooLong (directory.child (decodeName name))) := by
  obtain ⟨hgiven, -, hwalk⟩ := (spot_eq_ok_iff_walk hwd hp).1 (find_eq_ok_iff.1 hfind)
  have hgivenChild := canBeGiven_child hgiven hname
  by_cases hshort : (directory.child (decodeName name)).Short
  · left
    obtain ⟨k, hleads⟩ := FileTree.exists_leads_of_walk _ _ _ hwalk
    rw [← List.append_nil directory.fileNames] at hwalk
    -- the links on the way to the directory leave a part of the budget, and the entry needs none
    obtain ⟨left, hbudget⟩ := Nat.exists_eq_add_of_le (hleads.le_budget hwalk)
    rw [hname.child_eq] at hgivenChild hshort ⊢
    refine find_eq_ok_iff.2 ((spot_eq_ok_iff_walk hwd (FileTree.proper_under hp hname.isName)).2
      ⟨hgivenChild, hshort, ?_⟩)
    rw [Path.fileNames_under _ (encodeName_decodeName name), hbudget]
    have hentry : h.tree.walk true left l [name] = h.tree.walk true left (name :: l) [] :=
      FileTree.walk_congr (FileTree.advance_enter hhere hname.toIsEntry hnode hplain true) left
    have hend : h.tree.walk true left (name :: l) [] = .ok (.taken (name :: l)) := by
      rw [FileTree.walk, FileTree.advance]
    exact (hleads.walk_eq left).trans (hentry.trans hend)
  · right
    rw [find, spot, FileTree.locate_of_long hgivenChild hshort]
    rfl

theorem inspect_eq_counts_iff_entryCounts :
    h.inspect nonempty directory l name = .counts ↔
      h.EntryCounts nonempty directory l name := by
  rw [inspect_eq_counts_iff]
  constructor
  · rintro (⟨content, hnode, hcounts⟩ | ⟨target, m, hnode, hlink, hfile⟩)
    · refine ⟨content, .itself hnode, ?_⟩
      rintro rfl
      obtain ⟨hfilled, spot, hspot⟩ := hcounts.resolve_left nofun
      refine ⟨by simpa using hfilled, ?_⟩
      rcases find_entry hwd hp hfind hhere hname hnode (.file content) with hfound | hlong
      · exact ⟨_, hfound⟩
      · rw [find, hspot] at hlong
        cases spot <;> cases hlong
    · obtain ⟨node, hm, hkind⟩ := (Option.any_eq_true _ _).1 hfile
      cases node with
      | file content =>
        refine ⟨content, .linked hnode hlink hm, ?_⟩
        rintro rfl
        exact ⟨by simpa [isFilledFile] using hkind, m, hlink⟩
      | directory => cases nonempty <;> cases hkind
      | link target => cases nonempty <;> cases hkind
  · rintro ⟨content, hshows, hcounts⟩
    cases hshows with
    | itself hnode =>
      refine .inl ⟨content, hnode, ?_⟩
      cases nonempty with
      | false => exact .inl rfl
      | true =>
        obtain ⟨hfilled, m, hfound⟩ := hcounts rfl
        exact .inr ⟨by simpa using hfilled, _, find_eq_ok_iff.1 hfound⟩
    | @linked target m hnode hlink hfile =>
      refine .inr ⟨target, m, hnode, hlink, ?_⟩
      rw [hfile]
      cases nonempty with
      | false => rfl
      | true =>
        obtain ⟨hfilled, -⟩ := hcounts rfl
        simpa [isFilledFile] using hfilled

theorem inspect_eq_unreadable_iff :
    h.inspect nonempty directory l name = .unreadable ↔
      h.EntryUnreadable nonempty directory l name := by
  obtain ⟨hgiven, -, -⟩ := (spot_eq_ok_iff_walk hwd hp).1 (find_eq_ok_iff.1 hfind)
  have hgivenChild := canBeGiven_child hgiven hname
  rw [inspect, EntryUnreadable]
  cases hnode : h.tree.node? (name :: l) with
  | none => simp
  | some node =>
    cases node with
    | directory => simp
    | file content =>
      cases nonempty with
      | false => simp
      | true =>
        rcases find_entry hwd hp hfind hhere hname hnode (.file content) with hfound | hlong
        · have hspot := find_eq_ok_iff.1 hfound
          cases content <;> simp [hspot, hfound]
        · cases hspot : h.spot (directory.child (decodeName name)) with
          | error fault => simp [hlong]
          | ok spot =>
            rw [find, hspot] at hlong
            cases spot <;> cases hlong
    | link target =>
      cases hlink : h.find (directory.child (decodeName name)) with
      | ok m =>
        have hne : ∀ b : Bool,
            (if b = true then Inspection.counts else .ignored) ≠ .unreadable := by decide
        exact iff_of_false (hne _) (by simp)
      | error fault =>
        obtain ⟨e, rfl⟩ := refused_of_find_eq_error hgivenChild hlink
        cases e <;> simp

end Directory

/-! ## What a scan comes to -/

/-- Some name in the directory that matches satisfies a condition. -/
def SomeMatch (h : Host) (accepts : Text → Bool) (l : Location) (condition : FileName → Prop) :
    Prop :=
  ∃ name ∈ h.tree.namesIn l, accepts (decodeName name) = true ∧ condition name

/-- Nothing is seen of a name that is not in the directory. -/
theorem mem_namesIn_of_inspect (hinspect : h.inspect nonempty directory l name ≠ .ignored) :
    name ∈ h.tree.namesIn l := by
  cases hnode : h.tree.node? (name :: l) with
  | none =>
    rw [inspect, hnode] at hinspect
    exact absurd rfl hinspect
  | some node =>
    rw [FileTree.node?, if_neg (List.cons_ne_nil _ _), Option.map_eq_some_iff] at hnode
    obtain ⟨⟨m, node⟩, hfound, -⟩ := hnode
    have hsame : m = name :: l := by simpa using List.find?_some hfound
    exact FileTree.mem_namesIn.2 ⟨node, hsame ▸ List.mem_of_find?_eq_some hfound⟩

theorem scan_of_not_isDirectory (htested : ¬ Fails (h.isDirectory directory))
    (hnot : h.isDirectory directory ≠ .ok true) :
    h.scan accepts nonempty directory = .ok .undetermined := by
  obtain ⟨there, hthere⟩ := not_fails_iff.1 htested
  cases there with
  | false =>
    rw [scan, hthere, ok_bind]
    rfl
  | true => exact absurd hthere hnot

/-- A scan is not affected by the order in which directories hand out their names. -/
theorem scan_relisted {t' : FileTree} (hrelists : h.tree.Relists t') :
    ({ h with tree := t' } : Host).scan accepts nonempty directory =
      h.scan accepts nonempty directory := by
  have hinspect : ∀ l, ({ h with tree := t' } : Host).inspect nonempty directory l =
      h.inspect nonempty directory l := by
    intro l
    funext name
    rw [inspect, inspect]
    simp only [hrelists.node?_eq, hrelists.spot_eq, hrelists.find_eq]
  rw [scan, scan, hrelists.host_isDirectory_eq, hrelists.listing?_eq]
  simp only [hinspect]
  refine bind_congr fun there => ?_
  cases there with
  | false => rfl
  | true =>
    cases hlisting : h.listing? directory with
    | none => rfl
    | some listing =>
      obtain ⟨l, names⟩ := listing
      obtain ⟨-, -, -, rfl⟩ := listing?_eq_some_iff.1 hlisting
      refine congrArg Except.ok (scanOutcome_congr fun shown _ => ?_)
      simp only [List.mem_map, List.mem_filter, hrelists.mem_namesIn_iff]

/-- What is seen of the matching names is what they are. -/
theorem mem_inspected_iff {inspect : FileName → Inspection} {shown : Inspection}
    {condition : FileName → Prop}
    (hinspect : ∀ name ∈ h.tree.namesIn l, inspect name = shown ↔ condition name) :
    shown ∈ ((h.tree.namesIn l).filter fun name => accepts (decodeName name)).map inspect ↔
      h.SomeMatch accepts l condition := by
  rw [List.mem_map, SomeMatch]
  refine exists_congr fun name => ?_
  rw [List.mem_filter, and_assoc]
  exact and_congr_right fun hname => and_congr_right fun _ => hinspect name hname

/-- **A scan comes to what the entries of the directory are.**  Without a directory it is
undetermined, and so it is of a directory that does not let itself be listed.  In any other
directory it succeeds if some matching entry counts; otherwise it is undetermined if some matching
entry cannot be inspected; otherwise it fails.  It is what going through any listing comes to in
which the matching entries of these two kinds are, in whatever order, and however often; and it is
the same in every tree that lists its entries otherwise. -/
theorem scan_decides (hwd : h.tree.isDirectory h.workingDirectory = true)
    (hnames : h.tree.KeepsNames) (hp : directory.Proper)
    (htested : ¬ Fails (h.isDirectory directory)) (accepts : Text → Bool) (nonempty : Bool) :
    ∃ outcome, h.scan accepts nonempty directory = .ok outcome ∧
      (h.isDirectory directory ≠ .ok true → outcome = .undetermined) ∧
      (h.isDirectory directory = .ok true → ∃ l, h.find directory = .ok l ∧
        (l ∈ h.unlisted → outcome = .undetermined) ∧
        (l ∉ h.unlisted →
          (outcome = .success ↔ h.SomeMatch accepts l (h.EntryCounts nonempty directory l)) ∧
          (outcome = .undetermined ↔
            ¬ h.SomeMatch accepts l (h.EntryCounts nonempty directory l) ∧
              h.SomeMatch accepts l (h.EntryUnreadable nonempty directory l)) ∧
          (outcome = .failure ↔
            ¬ h.SomeMatch accepts l (h.EntryCounts nonempty directory l) ∧
              ¬ h.SomeMatch accepts l (h.EntryUnreadable nonempty directory l)) ∧
          ∀ listing : List FileName,
            (∀ name ∈ h.tree.namesIn l, accepts (decodeName name) = true →
              h.EntryCounts nonempty directory l name ∨
                h.EntryUnreadable nonempty directory l name → name ∈ listing) →
            lookThrough accepts (h.inspect nonempty directory l) false listing = outcome)) ∧
      ∀ t', h.tree.Relists t' →
        ({ h with tree := t' } : Host).scan accepts nonempty directory = .ok outcome := by
  by_cases hdirectory : h.isDirectory directory = .ok true
  case neg =>
    have hscan : h.scan accepts nonempty directory = .ok .undetermined :=
      scan_of_not_isDirectory htested hdirectory
    exact ⟨.undetermined, hscan, fun _ => rfl, fun hthere => absurd hthere hdirectory,
      fun t' hrelists => (scan_relisted hrelists).trans hscan⟩
  obtain ⟨l, hfind, hhere⟩ := exists_find_directory hdirectory
  by_cases hlisted : l ∈ h.unlisted
  · have hscan : h.scan accepts nonempty directory = .ok .undetermined :=
      scan_of_unlisted hdirectory hfind hlisted
    exact ⟨.undetermined, hscan, fun _ => rfl,
      fun _ => ⟨l, hfind, fun _ => rfl, fun hnot => absurd hlisted hnot⟩,
      fun t' hrelists => (scan_relisted hrelists).trans hscan⟩
  have hcounts : ∀ name ∈ h.tree.namesIn l, h.inspect nonempty directory l name = .counts ↔
      h.EntryCounts nonempty directory l name := fun name hname =>
    inspect_eq_counts_iff_entryCounts hwd hp hfind hhere (hnames l name hname)
  have hunreadable : ∀ name ∈ h.tree.namesIn l,
      h.inspect nonempty directory l name = .unreadable ↔
        h.EntryUnreadable nonempty directory l name := fun name hname =>
    inspect_eq_unreadable_iff hwd hp hfind hhere (hnames l name hname)
  have hscan : h.scan accepts nonempty directory = .ok (scanOutcome
      (((h.tree.namesIn l).filter fun name => accepts (decodeName name)).map
        (h.inspect nonempty directory l))) := scan_of_find hdirectory hfind hlisted
  refine ⟨_, hscan, fun hnot => absurd hdirectory hnot,
    fun _ => ⟨l, hfind, fun hunlisted => absurd hunlisted hlisted, fun _ => ⟨?_, ?_, ?_, ?_⟩⟩,
    fun t' hrelists => (scan_relisted hrelists).trans hscan⟩
  · rw [scanOutcome_eq_success_iff, mem_inspected_iff hcounts]
  · rw [scanOutcome_eq_undetermined_iff, mem_inspected_iff hcounts, mem_inspected_iff hunreadable]
  · rw [scanOutcome_eq_failure_iff, mem_inspected_iff hcounts, mem_inspected_iff hunreadable]
  · intro listing hlisting
    refine (lookThrough_eq_of_relevant fun name haccepted hrelevant => ?_).trans
      (lookThrough_eq_scanOutcome _ false (h.tree.namesIn l))
    have hmem := mem_namesIn_of_inspect hrelevant
    refine iff_of_true (hlisting name hmem haccepted ?_) hmem
    cases hinspect : h.inspect nonempty directory l name with
    | counts => exact .inl ((hcounts name hmem).1 hinspect)
    | ignored => exact absurd hinspect hrelevant
    | unreadable => exact .inr ((hunreadable name hmem).1 hinspect)

/-- A link to itself cannot be inspected, whatever is listed before it: a link to nothing, a
directory, an empty file.  Where an empty file counts, the scan succeeds, unless the directory does
not let itself be listed. -/
theorem scan_decides_loop :
    let h : Host := { tree := ⟨[([[112]], .directory), ([[76, 97], [112]], .link [120]),
      ([[76, 98], [112]], .directory), ([[76, 99], [112]], .file []),
      ([[76, 100], [112]], .link [76, 100])]⟩ }
    let closed : Host := { h with unlisted := [[[112]]] }
    h.tree.isDirectory h.workingDirectory = true ∧ h.tree.KeepsNames ∧
      (Path.ofText "/p").Proper ∧ ¬ Fails (h.isDirectory (.ofText "/p")) ∧
      (∀ t', h.tree.Relists t' →
        ({ h with tree := t' } : Host).scan (Pattern.starting "L").accepts true (.ofText "/p") =
          .ok .undetermined) ∧
      h.scan (Pattern.starting "L").accepts false (.ofText "/p") = .ok .success ∧
      closed.scan (Pattern.starting "L").accepts false (.ofText "/p") = .ok .undetermined := by
  intro h closed
  have hwd : h.tree.isDirectory h.workingDirectory = true := by decide +kernel
  have hnames : h.tree.KeepsNames := FileTree.keepsNames_of_entries (by decide +kernel)
  have htested : ¬ Fails (h.isDirectory (.ofText "/p")) := by decide +kernel
  obtain ⟨outcome, hscan, -, -, hrelists⟩ := scan_decides hwd hnames (Path.proper_ofText "/p")
    htested (Pattern.starting "L").accepts true
  have hthere : h.scan (Pattern.starting "L").accepts true (.ofText "/p") = .ok .undetermined := by
    decide +kernel
  obtain rfl := Except.ok.inj (hscan.symm.trans hthere)
  obtain ⟨other, hopen, -, hdirectory, -⟩ := scan_decides (h := closed) hwd hnames
    (Path.proper_ofText "/p") htested (Pattern.starting "L").accepts false
  obtain ⟨l, hfind, hunlisted, -⟩ := hdirectory (by decide +kernel)
  have hp : closed.find (.ofText "/p") = .ok [[112]] := by decide +kernel
  obtain rfl := Except.ok.inj (hfind.symm.trans hp)
  obtain rfl := hunlisted (List.mem_singleton_self _)
  exact ⟨hwd, hnames, Path.proper_ofText "/p", htested, hrelists, by decide +kernel, hopen⟩

/-! ## A path that is too long -/

/-- The path that goes into a directory and out of it again so many times. -/
def roundabout : Nat → Path
  | 0 => {}
  | k + 1 => ((roundabout k).under "a").under ".."

/-- A directory and a file beside it. -/
def roundaboutTree : FileTree :=
  ⟨[([[97]], .directory), ([Text.Utf8.encodeString "LICENSE"], .file [77, 73, 84])]⟩

theorem stands_roundabout (k : Nat) : roundaboutTree.Stands [] (roundabout k) [] := by
  have hroot : roundaboutTree.isDirectory [] = true := FileTree.Rooted.root.isDirectory
  have hinside : roundaboutTree.isDirectory [[97]] = true := by decide +kernel
  have hnode : roundaboutTree.node? [[97]] = some .directory := by decide +kernel
  induction k with
  | zero => exact .start rfl
  | succ k ih =>
    have hinto : roundaboutTree.Stands [] ((roundabout k).under "a") [[97]] :=
      ih.enter hroot (by decide) rfl ⟨rfl, by decide, by decide⟩ hnode .directory
    exact .up hinto hinside

theorem canBeGiven_roundabout (k : Nat) : (roundabout k).CanBeGiven := by
  have hnames : ∀ name ∈ (roundabout k).names, name = "a" ∨ name = ".." := by
    induction k with
    | zero => exact fun name hname => absurd hname List.not_mem_nil
    | succ k ih =>
      intro name hname
      rcases List.mem_append.1 hname with hname | hname
      · rcases List.mem_append.1 hname with hname | hname
        · exact ih name hname
        · exact .inl (List.mem_singleton.1 hname)
      · exact .inr (List.mem_singleton.1 hname)
  rw [Path.canBeGiven_iff]
  intro name hname
  rcases hnames name hname with rfl | rfl
  · exact exists_encodeName_iff.1 ⟨[97], rfl, by decide⟩
  · exact exists_encodeName_iff.1 ⟨FileName.above, rfl, by decide⟩

theorem anchor_roundabout (k : Nat) : (roundabout k).anchor = .relative := by
  induction k with
  | zero => rfl
  | succ k ih => exact ih

theorem length_roundabout (k : Nat) : (Path.slashed (roundabout k).fileNames).length = 5 * k := by
  induction k with
  | zero => rfl
  | succ k ih =>
    have hinto : encodeName ("a" : Text) = .ok [97] := rfl
    have hout : encodeName ".." = .ok FileName.above := rfl
    rw [roundabout, Path.fileNames_under _ hout, Path.fileNames_under _ hinto, Path.slashed,
      List.flatMap_append, List.flatMap_append, List.length_append, List.length_append]
    rw [Path.slashed] at ih
    rw [ih]
    simp [FileName.above]
    omega

/-- Where the path is short but leaves no room for the name of the file, the file is seen, and its
size is not. -/
theorem scan_roundabout_of_lt {k : Nat} (hfits : 5 * k ≤ 4096) (hlong : 4096 < 5 * k + 8) :
    let h : Host := { tree := roundaboutTree }
    h.isDirectory (roundabout k) = .ok true ∧ h.find (roundabout k) = .ok [] ∧
      h.scan (Pattern.starting "LICENSE").accepts true (roundabout k) = .ok .undetermined := by
  intro h
  have hwd : h.tree.isDirectory h.workingDirectory = true := FileTree.Rooted.root.isDirectory
  have hgiven := canBeGiven_roundabout k
  have hlength := length_roundabout k
  have hshort : (roundabout k).Short := by
    obtain ⟨k, rfl⟩ : ∃ j, k = j + 1 := ⟨k - 1, by omega⟩
    rw [Path.short_iff (List.append_ne_nil_of_right_ne_nil _ (List.cons_ne_nil _ _)) hgiven,
      anchor_roundabout, hlength]
    exact Nat.le_trans (Nat.le_of_eq (Nat.zero_add _)) hfits
  have hstands := stands_roundabout k
  have hwalk := hstands.walk true FileTree.linkBudget []
  rw [List.append_nil] at hwalk
  have hfind : h.find (roundabout k) = .ok [] :=
    find_eq_ok_iff.2 ((spot_eq_ok_iff_walk hwd hstands.proper).2 ⟨hgiven, hshort, hwalk⟩)
  have hdirectory := isDirectory_of_find hfind hwd
  have hkept : FileName.CanBeKept (Text.Utf8.encodeString "LICENSE") := by decide +kernel
  have hgivenChild := canBeGiven_child hgiven hkept
  have hrefused :
      ¬ ((roundabout k).child (decodeName (Text.Utf8.encodeString "LICENSE"))).Short := by
    have hlast : (Path.slashed [Text.Utf8.encodeString "LICENSE"]).length = 8 := by decide +kernel
    rw [hkept.child_eq] at hgivenChild ⊢
    rw [Path.short_iff (List.append_ne_nil_of_right_ne_nil _ (List.cons_ne_nil _ _)) hgivenChild,
      Path.fileNames_under _ (encodeName_decodeName _), Path.slashed, List.flatMap_append,
      List.length_append]
    rw [Path.slashed] at hlength hlast
    rw [hlength, hlast, FileTree.pathLimit]
    omega
  have hspot : h.spot ((roundabout k).child (decodeName (Text.Utf8.encodeString "LICENSE"))) =
      .error (.refused .nameTooLong _) := FileTree.locate_of_long hgivenChild hrefused true
  have hnode : h.tree.node? [Text.Utf8.encodeString "LICENSE"] = some (.file [77, 73, 84]) := by
    decide +kernel
  have hmatching : (h.tree.namesIn []).filter
      (fun name => (Pattern.starting "LICENSE").accepts (decodeName name)) =
        [Text.Utf8.encodeString "LICENSE"] := by decide +kernel
  refine ⟨hdirectory, hfind, ?_⟩
  rw [scan_of_find hdirectory hfind List.not_mem_nil, hmatching, List.map_singleton,
    inspect_eq_unreadable hnode hspot]
  rfl

/-- A file that is not empty matches, but the path of the directory is so long that the size of the
file cannot be asked for. -/
theorem scan_roundabout :
    let h : Host := { tree := roundaboutTree }
    let name := Text.Utf8.encodeString "LICENSE"
    h.isDirectory (roundabout 819) = .ok true ∧ h.find (roundabout 819) = .ok [] ∧
      name ∈ h.tree.namesIn [] ∧ (Pattern.starting "LICENSE").accepts (decodeName name) = true ∧
      h.tree.node? [name] = some (.file [77, 73, 84]) ∧
      h.scan (Pattern.starting "LICENSE").accepts true (roundabout 819) = .ok .undetermined := by
  intro h name
  obtain ⟨hdirectory, hfind, hscan⟩ := scan_roundabout_of_lt (show 5 * 819 ≤ 4096 by decide)
    (by decide)
  exact ⟨hdirectory, hfind, by decide +kernel, by decide +kernel, by decide +kernel, hscan⟩

end Host

end ProjectAudit
