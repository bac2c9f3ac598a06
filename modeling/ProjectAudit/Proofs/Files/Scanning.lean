import ProjectAudit.Proofs.Files.Resolving

/-!
# Scans of one directory by two paths

A scan succeeds if one matching entry counts.  The entries of a directory are the same by whatever
path it is reached, but an entry that has to be asked for is asked for by the path of the directory
with its name behind.  So a directory that is scanned by the path that it is resolved to shows at
least what another path to it shows, as long as its own path leaves room for the names of the
entries.

* `Host.inspect_eq_counts_iff`, `Host.scan_eq_success_iff`: when an entry counts, and when a scan
  succeeds.
* `Host.scan_of_resolve`: a scan by one path, and by the path that it is resolved to.
-/

namespace ProjectAudit

namespace Host

variable {h : Host} {nonempty : Bool} {directory p resolved : Path} {l m : Location}
  {name : FileName}

/-- An entry counts if it is a file, or a link to one.  A file that may not be empty has to be
asked for, and so has what a link leads to. -/
theorem inspect_eq_counts_iff :
    h.inspect nonempty directory l name = .counts ↔
      (∃ content, h.tree.node? (name :: l) = some (.file content) ∧
        (nonempty = false ∨ content.isEmpty = false ∧
          ∃ spot, h.spot (directory.child (decodeName name)) = .ok spot)) ∨
      ∃ target m, h.tree.node? (name :: l) = some (.link target) ∧
        h.find (directory.child (decodeName name)) = .ok m ∧
        (h.tree.node? m).any (if nonempty then isFilledFile else isFileNode) = true := by
  rw [inspect]
  cases hnode : h.tree.node? (name :: l) with
  | none => simp
  | some node =>
    cases node with
    | directory => simp
    | file content =>
      cases nonempty with
      | false => simp
      | true =>
        cases hspot : h.spot (directory.child (decodeName name)) with
        | error fault => simp
        | ok spot => cases content <;> simp
    | link target =>
      cases hfind : h.find (directory.child (decodeName name)) with
      | error fault =>
        refine iff_of_false ?_ (by simp)
        dsimp only
        split
        · rename_i hfault
          cases hfault
        · simp
        · simp
      | ok m =>
        dsimp only
        split
        · rename_i hany
          simp [hany]
        · simp_all

/-- A file that has to be asked for by a path that is refused cannot be inspected. -/
theorem inspect_eq_unreadable {content : List UInt8} {fault : PathFault}
    (hnode : h.tree.node? (name :: l) = some (.file content))
    (hspot : h.spot (directory.child (decodeName name)) = .error fault) :
    h.inspect true directory l name = .unreadable := by
  rw [inspect, hnode]
  dsimp only
  rw [hspot]
  rfl

theorem scanOutcome_eq_success_iff {inspections : List Inspection} :
    scanOutcome inspections = .success ↔ .counts ∈ inspections := by
  rw [scanOutcome]
  split
  · simp_all
  · split <;> simp_all

theorem isDirectory_of_find (hfind : h.find p = .ok l) (hnode : h.tree.isDirectory l = true) :
    h.isDirectory p = .ok true := by
  have hdirectory : h.tree.node? l = some .directory := by
    simpa [FileTree.isDirectory] using hnode
  rw [isDirectory, holdsAt, hfind]
  dsimp only
  rw [hdirectory]
  rfl

/-- The location at which a directory stands is that of a directory. -/
theorem isDirectory_of_isDirectory (hdirectory : h.isDirectory p = .ok true)
    (hfind : h.find p = .ok l) : h.tree.isDirectory l = true := by
  obtain ⟨m, hthere, hnode⟩ := exists_find_directory hdirectory
  obtain rfl := Except.ok.inj (hfind.symm.trans hthere)
  exact hnode

/-- The outcome of a scan of a directory that lets itself be listed is that of its matching
entries. -/
theorem scan_of_find {accepts : Text → Bool} (hdirectory : h.isDirectory directory = .ok true)
    (hfind : h.find directory = .ok l) (hlisted : l ∉ h.unlisted) :
    h.scan accepts nonempty directory = .ok (scanOutcome
      (((h.tree.namesIn l).filter fun name => accepts (decodeName name)).map
        (h.inspect nonempty directory l))) := by
  have hlisting : h.listing? directory = some (l, h.tree.namesIn l) :=
    listing?_eq_some_iff.2
      ⟨hfind, isDirectory_of_isDirectory hdirectory hfind, hlisted, rfl⟩
  rw [scan, hdirectory, ok_bind, if_pos rfl, hlisting]
  rfl

/-- A directory that does not let itself be listed leaves the outcome open. -/
theorem scan_of_unlisted {accepts : Text → Bool} (hdirectory : h.isDirectory directory = .ok true)
    (hfind : h.find directory = .ok l) (hunlisted : l ∈ h.unlisted) :
    h.scan accepts nonempty directory = .ok .undetermined := by
  rw [scan, hdirectory, ok_bind, if_pos rfl, listing?_eq_none hfind hunlisted]
  rfl

/-- A scan succeeds if a directory is there that lets itself be listed, and a matching entry
counts. -/
theorem scan_eq_success_iff {accepts : Text → Bool} :
    h.scan accepts nonempty directory = .ok .success ↔
      h.isDirectory directory = .ok true ∧ ∃ l, h.find directory = .ok l ∧ l ∉ h.unlisted ∧
        ∃ name ∈ h.tree.namesIn l, accepts (decodeName name) = true ∧
          h.inspect nonempty directory l name = .counts := by
  constructor
  · intro hscan
    obtain ⟨there, hdirectory, hsuccess⟩ := bind_eq_ok.1 hscan
    cases there with
    | false => cases hsuccess
    | true =>
      obtain ⟨l, hfind⟩ := exists_find_of_isDirectory hdirectory
      by_cases hlisted : l ∈ h.unlisted
      · cases hscan.symm.trans (scan_of_unlisted hdirectory hfind hlisted)
      rw [scan_of_find hdirectory hfind hlisted] at hscan
      have hcounts := scanOutcome_eq_success_iff.1 (Except.ok.inj hscan)
      obtain ⟨name, hname, hinspect⟩ := List.mem_map.1 hcounts
      obtain ⟨hmem, haccepted⟩ := List.mem_filter.1 hname
      exact ⟨hdirectory, l, hfind, hlisted, name, hmem, haccepted, hinspect⟩
  · rintro ⟨hdirectory, l, hfind, hlisted, name, hmem, haccepted, hinspect⟩
    rw [scan_of_find hdirectory hfind hlisted]
    refine congrArg Except.ok (scanOutcome_eq_success_iff.2 (List.mem_map.2 ⟨name, ?_, hinspect⟩))
    exact List.mem_filter.2 ⟨hmem, haccepted⟩

/-- What a path without links leads to is the location that it stands for. -/
theorem find_of_stands (hwd : h.tree.isDirectory h.workingDirectory = true)
    (hstands : h.tree.Stands h.workingDirectory p m) (hfind : h.find p = .ok l) : l = m := by
  obtain ⟨-, -, hwalk⟩ := (spot_eq_ok_iff_walk hwd hstands.proper).1 (find_eq_ok_iff.1 hfind)
  have hthere := hstands.walk true FileTree.linkBudget []
  rw [List.append_nil] at hthere
  exact Spot.taken.inj (Except.ok.inj (hwalk.symm.trans hthere))

/-- What is found behind a path is found behind the path that it is resolved to. -/
theorem spot_child_of_stands (hwd : h.tree.isDirectory h.workingDirectory = true) (hp : p.Proper)
    (hfind : h.find p = .ok m) (hstands : h.tree.Stands h.workingDirectory resolved m)
    (hgiven : resolved.CanBeGiven) {text : Text} (hshort : (resolved.child text).Short)
    {spot : Spot} (hspot : h.spot (p.child text) = .ok spot) :
    h.spot (resolved.child text) = .ok spot := by
  rw [Path.child] at hshort hspot ⊢
  by_cases hrelative : (Path.ofText text).anchor = .relative
  · exact spot_join hwd hp (Path.proper_ofText text) hrelative hfind hstands hgiven hshort hspot
  · have hsame : ∀ a : Path, a.join (Path.ofText text) = Path.ofText text :=
      fun a => if_neg hrelative
    rw [hsame] at hspot ⊢
    exact hspot

/-- **A scan that succeeds by one path** succeeds by the path that it is resolved to. -/
theorem scan_of_resolve (hwd : h.tree.Rooted h.workingDirectory) (hp : p.Proper)
    (hasked : ∀ q, h.AsksAbout p q → q.Short) (hresolve : h.resolve p = .ok resolved)
    (hdirectory : h.isDirectory resolved = .ok true) {accepts : Text → Bool}
    (hentries : ∀ l name, h.find resolved = .ok l → name ∈ h.tree.namesIn l →
      accepts (decodeName name) = true → (resolved.child (decodeName name)).Short)
    (hscan : h.scan accepts nonempty p = .ok .success) :
    h.scan accepts nonempty resolved = .ok .success := by
  obtain ⟨-, m, hfind, hlisted, name, hmem, haccepted, hcounts⟩ := scan_eq_success_iff.1 hscan
  have hstands := stands_of_resolve hwd hp hasked hfind hresolve
  obtain ⟨l, hthere⟩ := exists_find_of_isDirectory hdirectory
  obtain rfl := find_of_stands hwd.isDirectory hstands hthere
  have hgiven : resolved.CanBeGiven :=
    ((spot_eq_ok_iff_walk hwd.isDirectory hstands.proper).1 (find_eq_ok_iff.1 hthere)).1
  have hbehind : ∀ {spot : Spot}, h.spot (p.child (decodeName name)) = .ok spot →
      h.spot (resolved.child (decodeName name)) = .ok spot :=
    spot_child_of_stands hwd.isDirectory hp hfind hstands hgiven
      (hentries l name hthere hmem haccepted)
  refine scan_eq_success_iff.2 ⟨hdirectory, l, hthere, hlisted, name, hmem, haccepted, ?_⟩
  -- the entry is the same by both paths; only what has to be asked for depends on them
  rw [inspect_eq_counts_iff] at hcounts ⊢
  rcases hcounts with ⟨content, hnode, hfilled⟩ | ⟨target, m, hnode, hlink, hfile⟩
  · refine .inl ⟨content, hnode, hfilled.imp_right ?_⟩
    rintro ⟨hsome, spot, hspot⟩
    exact ⟨hsome, spot, hbehind hspot⟩
  · exact .inr ⟨target, m, hnode, find_eq_ok_iff.2 (hbehind (find_eq_ok_iff.1 hlink)), hfile⟩

end Host

end ProjectAudit
