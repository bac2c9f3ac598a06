import ProjectAudit.Proofs.Files.Linked
import ProjectAudit.Proofs.Files.Scanning
import ProjectAudit.Proofs.Rules.Faults

/-!
# The search without its shortcut

A search for a file scans the project directory and then, where it is asked to, the workspace root.
The second scan is left out if both paths are resolved to one.  That is safe where the path that is
resolved leads to where the workspace root led, since then the first scan has seen the same entries.

Two things stand in the way, and both come from the length of paths.  A path that is asked about
while the workspace root is resolved may be too long, and then a link at it is passed over.  And the
path of an entry may be too long behind the path of the project, though it is not behind another
path of the same directory.  Without them the search is the plain one.

* `Context.Settled`, `Context.Searchable`: what the search takes for granted, and that its paths are
  short.
* `Rules.searchProject_value`: the search comes to what the two scans come to.
* `Rules.searchProject_long`: it does not where paths are too long.
-/

namespace ProjectAudit

open Run

/-- What a search takes for granted: the working directory is one, the project directory is one and
its path is resolved, and the workspace root can be resolved and tested. -/
structure Context.Settled (c : Context) : Prop where
  workingDirectory : c.host.tree.Rooted c.host.workingDirectory
  isDirectory : c.host.isDirectory c.projectDirectory = .ok true
  isResolved : c.host.resolve c.projectDirectory = .ok c.projectDirectory
  workspaceResolves : ∀ workspace, c.workspaceDirectory? = some workspace →
    ¬ Fails (c.host.resolve workspace)
  workspaceTests : ∀ workspace, c.workspaceDirectory? = some workspace →
    ¬ Fails (c.host.isDirectory workspace)

/-- The paths of a search are short.  Where the workspace root is resolved to the project directory,
no path that is asked about on the way is too long, and neither is that of a matching entry of the
project directory. -/
structure Context.Searchable (c : Context) (accepts : Text → Bool) : Prop extends c.Settled where
  asked : ∀ workspace, c.workspaceDirectory? = some workspace →
    c.host.resolve workspace = .ok c.projectDirectory → ∀ q, c.host.AsksAbout workspace q → q.Short
  entries : ∀ workspace, c.workspaceDirectory? = some workspace →
    c.host.resolve workspace = .ok c.projectDirectory → ∀ l name,
      c.host.find c.projectDirectory = .ok l → name ∈ c.host.tree.namesIn l →
      accepts (decodeName name) = true → (c.projectDirectory.child (decodeName name)).Short

namespace Rules

variable {c : Context} {pattern : Pattern} {s : Settings.FilePresence} {own : Outcome}
  {workspace : Path}

theorem proper_workspaceDirectory (h : c.workspaceDirectory? = some workspace) :
    workspace.Proper := by
  rw [Context.workspaceDirectory?] at h
  split at h
  · split at h
    · cases h
    · obtain rfl := Option.some.inj h
      exact Path.proper_ofText _
  · cases h

/-! ## The branches of a search -/

section Branches

variable {script : Cargo.Script}

variable (hown : c.host.scan pattern.accepts s.requireNonempty c.projectDirectory = .ok own)

include hown

/-- The search ends with the project directory. -/
theorem searchProject_ended (h : own = .success ∨ s.searchWorkspaceRoot = false) :
    searchProject c pattern s = pure own := by
  rw [searchProject]
  dsimp only
  rw [hown, Context.ask_ok_bind, if_pos (by simpa using h)]

/-- There is no workspace root to be searched. -/
theorem searchProject_alone (hworkspace : c.workspaceDirectory? = none) :
    searchProject c pattern s = pure own := by
  rw [searchProject]
  dsimp only
  rw [hown, Context.ask_ok_bind, hworkspace, ite_self]

/-- The second scan is left out. -/
theorem searchProject_same (hworkspace : c.workspaceDirectory? = some workspace)
    (hsame : sameDirectory c.host workspace c.projectDirectory = .ok true) :
    searchProject c pattern s = pure own := by
  rw [searchProject]
  dsimp only
  rw [hown, Context.ask_ok_bind, hworkspace]
  dsimp only
  rw [hsame, Context.ask_ok_bind, if_pos rfl, ite_self]

/-- The workspace root is scanned as well. -/
theorem value_searchProject_other (hne : own ≠ .success) (hsearch : s.searchWorkspaceRoot = true)
    (hworkspace : c.workspaceDirectory? = some workspace)
    (hsame : sameDirectory c.host workspace c.projectDirectory = .ok false) {found : Outcome}
    (hfound : c.host.scan pattern.accepts s.requireNonempty workspace = .ok found) :
    (searchProject c pattern s script).value =
      .ok (if found = .success then .success else own) := by
  rw [searchProject]
  dsimp only
  rw [hown, Context.ask_ok_bind, if_neg (by simp [hne, hsearch]), hworkspace]
  dsimp only
  rw [hsame, Context.ask_ok_bind, if_neg Bool.false_ne_true, hfound, Context.ask_ok_bind]
  by_cases hsuccess : found = .success
  · rw [if_pos hsuccess, if_pos hsuccess]
    exact (c.noteThen_ending _ _ _).1
  · rw [if_neg hsuccess, if_neg hsuccess]
    rfl

end Branches

/-! ## The search and the two scans -/

theorem exists_scan (pattern : Pattern) (s : Settings.FilePresence)
    (hdirectory : ¬ Fails (c.host.isDirectory workspace)) :
    ∃ found, c.host.scan pattern.accepts s.requireNonempty workspace = .ok found :=
  not_fails_iff.1 fun hfails =>
    hdirectory (Host.fails_isDirectory_iff.2 (Host.fails_scan_iff.1 hfails))

/-- The workspace root is asked for, is there, and shows a match. -/
def FoundInWorkspace (c : Context) (pattern : Pattern) (s : Settings.FilePresence) : Prop :=
  s.searchWorkspaceRoot = true ∧ ∃ workspace, c.workspaceDirectory? = some workspace ∧
    c.host.scan pattern.accepts s.requireNonempty workspace = .ok .success

/-- The second scan shows nothing new if it is left out. -/
theorem success_of_sameDirectory (hc : c.Searchable pattern.accepts)
    (hworkspace : c.workspaceDirectory? = some workspace)
    (hsame : sameDirectory c.host workspace c.projectDirectory = .ok true)
    (hfound : c.host.scan pattern.accepts s.requireNonempty workspace = .ok .success) :
    c.host.scan pattern.accepts s.requireNonempty c.projectDirectory = .ok .success := by
  obtain ⟨resolved, hresolve⟩ := not_fails_iff.1 (hc.workspaceResolves workspace hworkspace)
  rw [sameDirectory_eq_ok hresolve hc.isResolved] at hsame
  obtain rfl : resolved = c.projectDirectory := by simpa using hsame
  exact Host.scan_of_resolve hc.workingDirectory (proper_workspaceDirectory hworkspace)
    (hc.asked workspace hworkspace hresolve) hresolve hc.isDirectory
    (hc.entries workspace hworkspace hresolve) hfound

/-- What the search comes to, by what the project directory shows. -/
theorem value_searchProject (hc : c.Searchable pattern.accepts)
    (hown : c.host.scan pattern.accepts s.requireNonempty c.projectDirectory = .ok own)
    (script : Cargo.Script) :
    (FoundInWorkspace c pattern s → (searchProject c pattern s script).value = .ok .success) ∧
      (¬ FoundInWorkspace c pattern s → (searchProject c pattern s script).value = .ok own) := by
  by_cases hended : own = .success ∨ s.searchWorkspaceRoot = false
  · rw [searchProject_ended hown hended]
    refine ⟨fun hfound => ?_, fun _ => rfl⟩
    rcases hended with rfl | hsearch
    · rfl
    · exact absurd (hsearch.symm.trans hfound.1) Bool.false_ne_true
  obtain ⟨hne, hsearch⟩ := not_or.1 hended
  have hsearch : s.searchWorkspaceRoot = true := by simpa using hsearch
  cases hworkspace : c.workspaceDirectory? with
  | none =>
    rw [searchProject_alone hown hworkspace]
    refine ⟨fun ⟨_, workspace, hsome, _⟩ => ?_, fun _ => rfl⟩
    cases hworkspace.symm.trans hsome
  | some workspace =>
    obtain ⟨found, hfound⟩ := exists_scan pattern s (hc.workspaceTests workspace hworkspace)
    have hshows : FoundInWorkspace c pattern s ↔ found = .success := by
      constructor
      · rintro ⟨-, _, hsome, hsuccess⟩
        obtain rfl := Option.some.inj (hworkspace.symm.trans hsome)
        exact Except.ok.inj (hfound.symm.trans hsuccess)
      · rintro rfl
        exact ⟨hsearch, workspace, hworkspace, hfound⟩
    obtain ⟨resolved, hresolve⟩ := not_fails_iff.1 (hc.workspaceResolves workspace hworkspace)
    have hsame := sameDirectory_eq_ok hresolve hc.isResolved
    rw [hshows]
    cases heq : resolved == c.projectDirectory with
    | true =>
      rw [heq] at hsame
      rw [searchProject_same hown hworkspace hsame]
      refine ⟨?_, fun _ => rfl⟩
      -- the first scan would have shown what the second one shows
      rintro rfl
      exact absurd
        (Except.ok.inj (hown.symm.trans (success_of_sameDirectory hc hworkspace hsame hfound))) hne
    | false =>
      rw [heq] at hsame
      rw [value_searchProject_other hown hne hsearch hworkspace hsame hfound]
      exact ⟨fun hsuccess => by rw [if_pos hsuccess], fun hnot => by rw [if_neg hnot]⟩

/-- **The search comes to what the two scans come to.**  It succeeds where the project directory
shows a match, or the workspace root does that is asked for, and comes to the outcome of the project
directory otherwise.  A scan that is left out would have shown nothing new, and asking for the
workspace root makes a difference only by a match in it. -/
theorem searchProject_value (hc : c.Searchable pattern.accepts) (s : Settings.FilePresence)
    (script : Cargo.Script) :
    let value := fun settings => (searchProject c pattern settings script).value
    ∃ own, c.host.scan pattern.accepts s.requireNonempty c.projectDirectory = .ok own ∧
      (value s = .ok .success ↔ own = .success ∨ FoundInWorkspace c pattern s) ∧
      (¬ (own = .success ∨ FoundInWorkspace c pattern s) → value s = .ok own) ∧
      (∀ workspace, c.workspaceDirectory? = some workspace →
        sameDirectory c.host workspace c.projectDirectory = .ok true →
        c.host.scan pattern.accepts s.requireNonempty workspace = .ok .success →
        own = .success) ∧
      (value { s with searchWorkspaceRoot := true } = .ok .success ∨
        value { s with searchWorkspaceRoot := true } =
          value { s with searchWorkspaceRoot := false }) := by
  have hthere : ¬ Fails (c.host.isDirectory c.projectDirectory) := by
    rw [hc.isDirectory]
    exact nofun
  obtain ⟨own, hown⟩ := exists_scan pattern s hthere
  obtain ⟨hfound, hnot⟩ := value_searchProject hc hown script
  refine ⟨own, hown, ⟨fun hvalue => ?_, ?_⟩, fun hneither => hnot (not_or.1 hneither).2, ?_, ?_⟩
  · by_cases hshows : FoundInWorkspace c pattern s
    · exact .inr hshows
    · exact .inl (Except.ok.inj ((hnot hshows).symm.trans hvalue))
  · rintro (rfl | hshows)
    · by_cases hshows : FoundInWorkspace c pattern s
      · exact hfound hshows
      · exact hnot hshows
    · exact hfound hshows
  · intro workspace hworkspace hsame hsuccess
    exact Except.ok.inj
      (hown.symm.trans (success_of_sameDirectory hc hworkspace hsame hsuccess))
  · -- With the flag off nothing is found in the workspace root.
    obtain ⟨hasked, hnotAsked⟩ :=
      value_searchProject (s := { s with searchWorkspaceRoot := true }) hc hown script
    obtain ⟨-, hoff⟩ :=
      value_searchProject (s := { s with searchWorkspaceRoot := false }) hc hown script
    by_cases hshows : FoundInWorkspace c pattern { s with searchWorkspaceRoot := true }
    · exact .inl (hasked hshows)
    · exact .inr ((hnotAsked hshows).trans (hoff fun hother => Bool.false_ne_true hother.1).symm)

/-- The workspace root is a link to the project directory, so it is not scanned. -/
theorem searchProject_value_link :
    let c : Context := {
      manifest := .ofText "/p/Cargo.toml"
      metadataResult := .ofMetadata { workspaceRoot := "/s" }
      host := { tree := ⟨[([[112]], .directory), ([[115]], .link [112]),
        ([[76, 73, 67, 69, 78, 83, 69], [112]], .file [77, 73, 84])]⟩ } }
    c.Searchable license.accepts ∧ c.host.resolve (.ofText "/s") = .ok c.projectDirectory ∧
      (searchProject c license {} []).value = .ok .success := by
  intro c
  have hworkspace : ∀ workspace, c.workspaceDirectory? = some workspace →
      workspace = .ofText "/s" := fun workspace hsome => (Option.some.inj hsome).symm
  have hresolve : c.host.resolve (.ofText "/s") = .ok c.projectDirectory := by decide +kernel
  have hlink : c.host.tree.linkAt? [] (.ofText "/s") = .ok (some "p") := by decide +kernel
  have hplain : c.host.tree.linkAt? [] (.ofText "/p") = .ok none := by decide +kernel
  have hc : c.Searchable license.accepts := {
    workingDirectory := .root
    isDirectory := by decide +kernel
    isResolved := by decide +kernel
    workspaceResolves := by
      intro workspace hsome
      rw [hworkspace workspace hsome, hresolve]
      exact not_fails_ok _
    workspaceTests := by
      intro workspace hsome
      have hdirectory : c.host.isDirectory (.ofText "/s") = .ok true := by decide +kernel
      rw [hworkspace workspace hsome, hdirectory]
      exact not_fails_ok _
    asked := by
      -- the link is asked about, then the name in its target, and then nothing is left
      intro workspace hsome _ q hasks
      obtain rfl := hworkspace workspace hsome
      have hasks : c.host.tree.Asks [] ⟨.root, []⟩ ["s"] q := hasks
      rcases hasks.of_cons rfl (by decide) with rfl | ⟨hnone, -⟩ | ⟨target, hsome, hasks⟩
      · exact Path.short_of_encodeName rfl (by decide)
      · cases hlink.symm.trans hnone
      · obtain rfl := Option.some.inj (Except.ok.inj (hsome.symm.trans hlink))
        have hasks : c.host.tree.Asks [] ⟨.root, []⟩ ["p"] q := hasks
        rcases hasks.of_cons rfl (by decide) with rfl | ⟨-, hasks⟩ | ⟨target, hsome, -⟩
        · exact Path.short_of_encodeName rfl (by decide)
        · exact absurd hasks FileTree.not_asks_nil
        · cases hplain.symm.trans hsome
    entries := by
      intro workspace _ _ l name hfind hname _
      have hfound : c.host.find c.projectDirectory = .ok [[112]] := by decide +kernel
      obtain rfl := Except.ok.inj (hfind.symm.trans hfound)
      obtain rfl := List.mem_singleton.1 hname
      exact Path.short_of_encodeName rfl (by decide) }
  have hscan : c.host.scan license.accepts true c.projectDirectory = .ok .success := by
    decide +kernel
  obtain ⟨own, hown, hvalue, -⟩ := searchProject_value hc {} []
  obtain rfl := Except.ok.inj (hown.symm.trans hscan)
  exact ⟨hc, hresolve, hvalue.2 (.inl rfl)⟩

/-! ## Paths that are too long -/

section Far

open Text.Utf8 (encodeString)

/-- A name that is nearly as long as names may be.  It is never unfolded where locations are
compared. -/
@[irreducible]
def farName : FileName :=
  List.replicate 254 100

/-- The location of a directory so many directories below the root, all of them of this name.  The
path of the sixteenth one is short, but leaves no room for a name of fifteen bytes. -/
def far (k : Nat) : Location :=
  List.replicate k farName

/-- The directories down to the sixteenth one. -/
def farDirectories : List (Location × Node) :=
  (List.range 16).map fun k => (far (k + 1), .directory)

/-- A tree with these directories, a link at the root to the last of them, and other entries. -/
def farTree (others : List (Location × Node)) : FileTree :=
  ⟨farDirectories ++ ([[115]], .link (linkTo (far 16))) :: others⟩

/-- A project in the directory far down, with a workspace root. -/
def farContext (others : List (Location × Node)) (root : Text) : Context where
  manifest := (Path.ofLocation (far 16)).under "Cargo.toml"
  metadataResult := .ofMetadata { workspaceRoot := root }
  host := { tree := farTree others }

variable {others : List (Location × Node)} {k : Nat} {l : Location} {n : FileName} {root : Text}
  {rest : List FileName} {spot : Spot}

theorem length_farName : farName.length = 254 := by
  rw [farName, List.length_replicate]

theorem eq_of_mem_farName {b : UInt8} (hb : b ∈ farName) : b = 100 := by
  rw [farName] at hb
  exact List.eq_of_mem_replicate hb

theorem isEntry_farName : farName.IsEntry where
  proper := by
    rw [farName]
    rfl
  ne_above heq := by
    have hlength := congrArg List.length heq
    rw [length_farName] at hlength
    cases hlength
  length_le := by
    rw [length_farName]
    decide

theorem isEntry_link : FileName.IsEntry [115] :=
  ⟨rfl, nofun, by decide⟩

theorem far_inj {i j : Nat} : far i = far j ↔ i = j := by
  constructor
  · intro heq
    have hlength := congrArg List.length heq
    simpa [far] using hlength
  · rintro rfl
    rfl

theorem far_succ_ne_nil (k : Nat) : far (k + 1) ≠ [] :=
  List.cons_ne_nil _ _

theorem far_ne_cons (hn : n.length < 254) (k : Nat) (l : Location) : far (k + 1) ≠ n :: l := by
  intro heq
  have hlength := congrArg List.length (List.cons.inj heq).1
  rw [length_farName] at hlength
  omega

theorem zero_notMem_far : ∀ n ∈ far k, (0 : UInt8) ∉ n := by
  intro n hn hzero
  rw [List.eq_of_mem_replicate hn] at hzero
  cases eq_of_mem_farName hzero

theorem ascii_far : ∀ n ∈ far k, ∀ b ∈ n, b.toNat < 0x80 := by
  intro n hn b hb
  rw [List.eq_of_mem_replicate hn] at hb
  rw [eq_of_mem_farName hb]
  decide

/-! ### The tree -/

theorem node?_far (hk : k < 16) : (farTree others).node? (far (k + 1)) = some .directory := by
  -- a directory is found by its depth
  have hsame : (fun e : Location × Node => e.1 == far (k + 1)) ∘
      (fun i => (far (i + 1), Node.directory)) = fun i => i == k := by
    funext i
    rw [Bool.eq_iff_iff]
    simp [far_inj]
  have hrange : ∀ k < 16, (List.range 16).find? (fun i => i == k) = some k := by decide
  have hfind : farDirectories.find? (fun e => e.1 == far (k + 1)) =
      some (far (k + 1), .directory) := by
    rw [farDirectories, List.find?_map, hsame, hrange k hk]
    rfl
  rw [farTree, FileTree.node?_append, FileTree.node?, if_neg (far_succ_ne_nil k), hfind]
  rfl

theorem rooted_far (hk : k ≤ 16) : (farTree others).Rooted (far k) := by
  induction k with
  | zero => exact .root
  | succ k ih =>
    refine .inside (ih (by omega)) isEntry_farName ?_ (node?_far (by omega))
    intro b hb
    rw [eq_of_mem_farName hb]
    rfl

theorem rooted_last : (farTree others).Rooted (far 16) :=
  rooted_far (Nat.le_refl 16)

/-- Beside the directories stand the link and the other entries. -/
theorem node?_farTree (hn : n.length < 254) : (farTree others).node? (n :: l) =
    (FileTree.mk (([[115]], .link (linkTo (far 16))) :: others)).node? (n :: l) := by
  have hnone : (FileTree.mk farDirectories).node? (n :: l) = none := by
    refine FileTree.node?_eq_none (List.cons_ne_nil _ _) fun e he => ?_
    obtain ⟨k, -, rfl⟩ := List.mem_map.1 he
    exact far_ne_cons hn k l
  rw [farTree, FileTree.node?_append, hnone]
  rfl

theorem node?_link : (farTree others).node? [[115]] = some (.link (linkTo (far 16))) := by
  rw [node?_farTree (by decide)]
  exact FileTree.node?_cons_self (List.cons_ne_nil _ _)

/-- The first of the other entries, if it is in the directory far down. -/
theorem node?_entry {node : Node} (hn : n.length < 254) :
    (farTree ((n :: far 16, node) :: others)).node? (n :: far 16) = some node := by
  have hne : ([[115]] : Location) ≠ n :: far 16 := fun heq => nomatch (List.cons.inj heq).2
  rw [node?_farTree hn, FileTree.node?_cons_of_ne hne]
  exact FileTree.node?_cons_self (List.cons_ne_nil _ _)

theorem namesIn_far :
    (farTree others).namesIn (far 16) = (FileTree.mk others).namesIn (far 16) := by
  have hnone : (FileTree.mk farDirectories).namesIn (far 16) = [] := by
    refine FileTree.namesIn_eq_nil fun e he => ?_
    obtain ⟨k, hk, rfl⟩ := List.mem_map.1 he
    have hlt := List.mem_range.1 hk
    show far k ≠ far 16
    rw [ne_eq, far_inj]
    omega
  have hlink : (FileTree.mk [([[115]], .link (linkTo (far 16)))]).namesIn (far 16) = [] :=
    FileTree.namesIn_eq_nil (List.forall_mem_singleton.2 nofun)
  rw [farTree, FileTree.namesIn_append, hnone, List.nil_append, ← List.singleton_append,
    FileTree.namesIn_append, hlink, List.nil_append]

/-! ### The project directory -/

theorem length_slashed_far : (Path.slashed (far 16)).length = 4080 := by
  rw [Path.slashed, far, List.length_flatMap, List.map_replicate, List.sum_replicate_nat,
    List.length_cons, length_farName]

theorem short_far : (Path.ofLocation (far 16)).Short := by
  rw [Path.short_ofLocation_iff (far_succ_ne_nil 15) zero_notMem_far, length_slashed_far]
  decide

theorem not_short_far (hn : (0 : UInt8) ∉ n) (hlength : 15 ≤ n.length) :
    ¬ (Path.ofLocation (n :: far 16)).Short := by
  have hzero : ∀ m ∈ n :: far 16, (0 : UInt8) ∉ m := List.forall_mem_cons.2 ⟨hn, zero_notMem_far⟩
  rw [Path.short_ofLocation_iff (List.cons_ne_nil _ _) hzero]
  rw [Path.slashed_cons, List.length_append, List.length_cons, length_slashed_far,
    FileTree.pathLimit]
  omega

theorem canBeGiven_far (hn : (0 : UInt8) ∉ n) : (Path.ofLocation (n :: far 16)).CanBeGiven :=
  Path.canBeGiven_ofLocation (List.forall_mem_cons.2 ⟨hn, zero_notMem_far⟩)

theorem find_far :
    (farContext others root).host.find (Path.ofLocation (far 16)) = .ok (far 16) :=
  Host.find_ofLocation FileTree.Rooted.root.isDirectory rooted_last
    zero_notMem_far short_far

theorem isDirectory_far :
    (farContext others root).host.isDirectory (Path.ofLocation (far 16)) = .ok true :=
  Host.isDirectory_of_find find_far rooted_last.isDirectory

/-- What the project directory shows, by its matching entries. -/
theorem scan_far {matching : List FileName}
    (hmatching : ((FileTree.mk others).namesIn (far 16)).filter
      (fun name => license.accepts (decodeName name)) = matching) :
    (farContext others root).host.scan license.accepts true (Path.ofLocation (far 16)) =
      .ok (Host.scanOutcome (matching.map
        ((farContext others root).host.inspect true (Path.ofLocation (far 16)) (far 16)))) := by
  have hthere : (farContext others root).host.tree.namesIn (far 16) =
      (FileTree.mk others).namesIn (far 16) := namesIn_far
  rw [Host.scan_of_find isDirectory_far find_far List.not_mem_nil, hthere, hmatching]

/-! ### The way through the link -/

/-- What is behind the link is behind the directory far down. -/
theorem spot_farContext {text : Text} {bytes : FileName}
    (hanchor : (Path.ofText text).anchor = .root)
    (hnames : (Path.ofText text).fileNames = [115] :: rest)
    (hbytes : encodeName (Path.ofText text).text = .ok bytes) (hzero : (0 : UInt8) ∉ bytes)
    (hlength : bytes.length < FileTree.pathLimit)
    (hwalk : (farTree others).walk true 39 (far 16) rest = .ok spot) :
    (farContext others root).host.spot (Path.ofText text) = .ok spot := by
  refine (Host.spot_eq_ok_iff_walk FileTree.Rooted.root.isDirectory (Path.proper_ofText text)).2
    ⟨⟨bytes, hbytes, hzero⟩, Path.short_of_encodeName hbytes hlength, ?_⟩
  rw [hnames, FileTree.startIn, hanchor, ← hwalk]
  exact rooted_last.walk_linkTo isEntry_link node?_link 39 rest

/-- A path through the link is resolved on from the path of the directory far down. -/
theorem resolve_farContext {text : Text} (behind : List Text)
    (hanchor : (Path.ofText text).anchor = .root)
    (hnames : (Path.ofText text).names = decodeName [115] :: behind)
    (hbehind : ∀ seen, (farTree others).resolveFrom [] FileTree.maxNesting
      (Path.ofLocation (far 16)) behind seen = .ok (.path (Path.ofLocation (far 16)), seen)) :
    (farContext others root).host.resolve (Path.ofText text) = .ok (Path.ofLocation (far 16)) := by
  have hroot : (farTree others).isDirectory [] = true := FileTree.Rooted.root.isDirectory
  obtain ⟨seen, hlink⟩ := FileTree.exists_resolveFrom_linkTo hroot rooted_last
    zero_notMem_far ascii_far isEntry_link (List.forall_mem_singleton.2 rfl) (by decide) node?_link
    988 behind
  have hfollow : (farTree others).resolveFrom [] FileTree.maxNesting
      (if (Path.ofText text).anchor = .relative then {} else ⟨.root, []⟩) (Path.ofText text).names
        [] = .ok (.path (Path.ofLocation (far 16)), seen) := by
    rw [hanchor, hnames, ← hbehind seen]
    exact hlink
  exact Host.resolve_of_resolveFrom hroot rooted_last zero_notMem_far hfollow

/-- The scan of the workspace root is left out, though it would have succeeded. -/
theorem searchProject_far (hroot : root.isEmpty = false)
    (hresolve : (farContext others root).host.resolve (Path.ofText root) =
      .ok (Path.ofLocation (far 16)))
    (hscan : (farContext others root).host.scan license.accepts true (Path.ofText root) =
      .ok .success)
    (hown : (farContext others root).host.scan license.accepts true (Path.ofLocation (far 16)) =
      .ok own) (script : Cargo.Script) :
    (farContext others root).Settled ∧ FoundInWorkspace (farContext others root) license {} ∧
      (searchProject (farContext others root) license {} script).value = .ok own := by
  have hsome : (farContext others root).workspaceDirectory? = some (.ofText root) := by
    show (if root.isEmpty then none else some (Path.ofText root)) = _
    rw [hroot]
    rfl
  have hproject : (farContext others root).projectDirectory = Path.ofLocation (far 16) :=
    congrArg (Path.mk .root) List.dropLast_concat
  have hitself : (farContext others root).host.resolve (Path.ofLocation (far 16)) =
      .ok (Path.ofLocation (far 16)) :=
    Host.resolve_ofLocation FileTree.Rooted.root.isDirectory rooted_last
      zero_notMem_far
  have hsame : sameDirectory (farContext others root).host (.ofText root)
      (farContext others root).projectDirectory = .ok true := by
    rw [hproject, sameDirectory_eq_ok hresolve hitself, beq_self_eq_true]
  rw [← hproject] at hown
  refine ⟨⟨.root, ?_, ?_, ?_, ?_⟩, ⟨rfl, .ofText root, hsome, hscan⟩, ?_⟩
  · rw [hproject]
    exact isDirectory_far
  · rw [hproject]
    exact hitself
  · intro workspace hworkspace
    obtain rfl := Option.some.inj (hsome.symm.trans hworkspace)
    rw [hresolve]
    exact not_fails_ok _
  · intro workspace hworkspace
    obtain rfl := Option.some.inj (hsome.symm.trans hworkspace)
    rw [(Host.scan_eq_success_iff.1 hscan).1]
    exact not_fails_ok _
  · rw [searchProject_same (s := {}) hown hsome hsame]
    rfl

/-! ### A file whose path is too long -/

/-- A file in the directory far down. -/
def farFile : List (Location × Node) :=
  [(encodeString "LICENSE-MIT.txt" :: far 16, .file [77])]

theorem namesIn_farFile :
    (FileTree.mk farFile).namesIn (far 16) = [encodeString "LICENSE-MIT.txt"] :=
  FileTree.namesIn_cons_self

theorem node?_farFile :
    (farTree farFile).node? (encodeString "LICENSE-MIT.txt" :: far 16) = some (.file [77]) :=
  node?_entry (by decide)

theorem isEntry_farFile : FileName.IsEntry (encodeString "LICENSE-MIT.txt") :=
  ⟨rfl, nofun, by decide⟩

/-- Through the link the file is asked for by a short path. -/
theorem scan_farFile_link :
    (farContext farFile root).host.scan license.accepts true (.ofText "/s") = .ok .success := by
  have hfind : (farContext farFile root).host.find (.ofText "/s") = .ok (far 16) :=
    Host.find_eq_ok_iff.2 (spot_farContext rfl rfl rfl (by decide) (by decide) rfl)
  have hwalk : (farTree farFile).walk true 39 (far 16) [encodeString "LICENSE-MIT.txt"] =
      .ok (.taken (encodeString "LICENSE-MIT.txt" :: far 16)) :=
    FileTree.walk_congr (FileTree.advance_enter rooted_last.isDirectory
      isEntry_farFile node?_farFile (.file _) true) 39
  have hchild : (Path.ofText "/s").child (decodeName (encodeString "LICENSE-MIT.txt")) =
      Path.ofText "/s/LICENSE-MIT.txt" := by decide +kernel
  have hspot : (farContext farFile root).host.spot
      ((Path.ofText "/s").child (decodeName (encodeString "LICENSE-MIT.txt"))) =
        .ok (.taken (encodeString "LICENSE-MIT.txt" :: far 16)) := by
    rw [hchild]
    exact spot_farContext rfl rfl rfl (by decide) (by decide) hwalk
  have hlisted : encodeString "LICENSE-MIT.txt" ∈ (farTree farFile).namesIn (far 16) := by
    rw [namesIn_far, namesIn_farFile]
    exact List.mem_singleton_self _
  exact Host.scan_eq_success_iff.2 ⟨Host.isDirectory_of_find hfind
    rooted_last.isDirectory, far 16, hfind, List.not_mem_nil, _, hlisted, by decide +kernel,
    Host.inspect_eq_counts_iff.2 (.inl ⟨[77], node?_farFile, .inr ⟨rfl, _, hspot⟩⟩)⟩

theorem scan_farFile :
    (farContext farFile root).host.scan license.accepts true (Path.ofLocation (far 16)) =
      .ok .undetermined := by
  have hzero : (0 : UInt8) ∉ encodeString "LICENSE-MIT.txt" := by decide +kernel
  obtain ⟨fault, hspot⟩ : ∃ fault, (farContext farFile root).host.spot
      ((Path.ofLocation (far 16)).child (decodeName (encodeString "LICENSE-MIT.txt"))) =
        .error fault := by
    rw [child_ofLocation isEntry_farFile (by decide +kernel)]
    exact ⟨_, FileTree.locate_of_long (canBeGiven_far hzero) (not_short_far hzero (by decide)) true⟩
  have hinspect := Host.inspect_eq_unreadable node?_farFile hspot
  have hmatching : ((FileTree.mk farFile).namesIn (far 16)).filter
      (fun name => license.accepts (decodeName name)) = [encodeString "LICENSE-MIT.txt"] := by
    rw [namesIn_farFile]
    decide +kernel
  rw [scan_far hmatching]
  exact congrArg (fun inspection => Except.ok (Host.scanOutcome [inspection])) hinspect

/-! ### A link whose path is too long -/

/-- A link in the directory far down to a directory beside it, with a file above that one. -/
def farLink : List (Location × Node) :=
  [(encodeString "workspace-member" :: far 16, .link (encodeString "/w/m")),
    ([[119]], .directory), ([[109], [119]], .directory),
    ([encodeString "LICENSE", [119]], .file [77])]

theorem namesIn_farLink :
    (FileTree.mk farLink).namesIn (far 16) = [encodeString "workspace-member"] := by
  have hroot : ([] : Location) ≠ far 16 := (far_succ_ne_nil 15).symm
  have hbeside : ([[119]] : Location) ≠ far 16 := (far_ne_cons (by decide) 15 []).symm
  refine FileTree.namesIn_cons_self.trans (congrArg _ (FileTree.namesIn_eq_nil ?_))
  exact List.forall_mem_cons.2 ⟨hroot, List.forall_mem_cons.2
    ⟨hbeside, List.forall_mem_singleton.2 hbeside⟩⟩

/-- A walk goes through the link, and so do the names behind it. -/
theorem walk_farLink
    (hwalk : (farTree farLink).walk true 38 [] ([[], [119], [109]] ++ rest) = .ok spot) :
    (farTree farLink).walk true 39 (far 16) (encodeString "workspace-member" :: rest) =
      .ok spot := by
  have hentry : FileName.IsEntry (encodeString "workspace-member") := ⟨rfl, nofun, by decide⟩
  have hnode : (farTree farLink).node? (encodeString "workspace-member" :: far 16) =
      some (.link (encodeString "/w/m")) := node?_entry (by decide)
  exact (FileTree.walk_link rooted_last.isDirectory hentry hnode 38).trans hwalk

theorem scan_farLink_root :
    (farContext farLink root).host.scan license.accepts true
      (.ofText "/s/workspace-member/..") = .ok .success := by
  have hfind : (farContext farLink root).host.find (.ofText "/s/workspace-member/..") =
      .ok [[119]] :=
    Host.find_eq_ok_iff.2 (spot_farContext rfl rfl rfl (by decide) (by decide)
      (walk_farLink (by decide +kernel)))
  have hchild : (Path.ofText "/s/workspace-member/..").child
      (decodeName (encodeString "LICENSE")) = Path.ofText "/s/workspace-member/../LICENSE" := by
    decide +kernel
  have hspot : (farContext farLink root).host.spot
      ((Path.ofText "/s/workspace-member/..").child (decodeName (encodeString "LICENSE"))) =
        .ok (.taken [encodeString "LICENSE", [119]]) := by
    rw [hchild]
    exact spot_farContext rfl rfl rfl (by decide) (by decide) (walk_farLink (by decide +kernel))
  have hdirectory : (farTree farLink).isDirectory [[119]] = true := by decide +kernel
  have hnode : (farTree farLink).node? [encodeString "LICENSE", [119]] = some (.file [77]) := by
    decide +kernel
  have hlisted : encodeString "LICENSE" ∈ (farTree farLink).namesIn [[119]] := by decide +kernel
  exact Host.scan_eq_success_iff.2 ⟨Host.isDirectory_of_find hfind hdirectory, [[119]], hfind,
    List.not_mem_nil, _, hlisted, by decide +kernel,
    Host.inspect_eq_counts_iff.2 (.inl ⟨[77], hnode, .inr ⟨rfl, _, hspot⟩⟩)⟩

theorem scan_farLink :
    (farContext farLink root).host.scan license.accepts true (Path.ofLocation (far 16)) =
      .ok .failure := by
  have hmatching : ((FileTree.mk farLink).namesIn (far 16)).filter
      (fun name => license.accepts (decodeName name)) = [] := by
    rw [namesIn_farLink]
    decide +kernel
  exact scan_far hmatching

/-- The link is taken for none, so `..` behind it leads back to where it stands. -/
theorem resolve_farLink :
    (farContext farLink root).host.resolve (.ofText "/s/workspace-member/..") =
      .ok (Path.ofLocation (far 16)) := by
  have hzero : (0 : UInt8) ∉ encodeString "workspace-member" := by decide +kernel
  have hlink : (farTree farLink).linkAt? []
      ((Path.ofLocation (far 16)).under (decodeName (encodeString "workspace-member"))) =
        .ok none := by
    rw [← Path.ofLocation_cons]
    exact FileTree.linkAt?_of_long (canBeGiven_far hzero) (not_short_far hzero (by decide))
  have habove : ((Path.ofLocation (far 16)).under
      (decodeName (encodeString "workspace-member"))).above = Path.ofLocation (far 16) := by
    rw [Path.above, Path.under, List.getLast?_concat]
    dsimp only
    rw [if_neg (by decide +kernel), Path.parent, List.dropLast_concat]
  refine resolve_farContext [decodeName (encodeString "workspace-member"), ".."] rfl
    (by decide +kernel) fun seen => ?_
  refine (FileTree.resolveFrom_plain (by decide +kernel) (by decide +kernel) hlink).trans ?_
  rw [FileTree.resolveFrom_above, habove]
  rfl

/-- **A search with paths that are too long** misses what is in the workspace root.  The path of a
file is too long behind that of the project directory, though it is short behind the link that is
the workspace root.  And a link on the way to the workspace root has a path that is too long once
the link before it is replaced: it is taken for none, so the workspace root is resolved to the
project directory, but it is another one. -/
theorem searchProject_long :
    let file := farContext farFile "/s"
    let link := farContext farLink "/s/workspace-member/.."
    (file.Settled ∧ FoundInWorkspace file license {} ∧
      (searchProject file license {} []).value = .ok .undetermined) ∧
    (link.Settled ∧ FoundInWorkspace link license {} ∧
      (searchProject link license {} []).value = .ok .failure) := by
  intro file link
  have hresolve : file.host.resolve (.ofText "/s") = .ok (Path.ofLocation (far 16)) :=
    resolve_farContext [] rfl rfl fun seen => rfl
  exact ⟨searchProject_far rfl hresolve scan_farFile_link scan_farFile [],
    searchProject_far rfl resolve_farLink scan_farLink_root scan_farLink []⟩

end Far

end Rules

end ProjectAudit
