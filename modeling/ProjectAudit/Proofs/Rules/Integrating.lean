import ProjectAudit.Proofs.Files.Entries
import ProjectAudit.Proofs.Rules.Faults
import ProjectAudit.Proofs.Text.Order

/-!
# The file that stands for continuous integration

The rule looks for a file in three ways, one after the other, and in two directories.  It finds one
exactly if there is one to be found in any of these ways, since a way that leads nowhere (no
pattern, no directory to list, one that does not let itself be listed) only hands on to the next.
Which names the pattern of the settings matches is for a library to say, whatever its notation is.

Which file is found is fixed by the tree and the settings.  Among the names in one directory it is
the least one, so the order in which the directory hands them out is of no account; for the names in
the settings it is their own order that counts.

* `Rules.isWorkflow_iff`: what the suffix of a workflow file says of its name.
* `Rules.HasIntegration`, `Rules.Foremost`: that there is a file, and which one comes first.
* `Rules.integrationFile_spec`: the search in one directory.
* `BuiltIn.continuousIntegration_decides`: the rule, its note, and trees that are listed otherwise.
-/

namespace ProjectAudit

/-! ## Names and files -/

/-- A name is in the directory at a path, which hands out the names in it. -/
def Host.Lists (h : Host) (directory : Path) (name : Text) : Prop :=
  ∃ l, h.find directory = .ok l ∧ h.tree.isDirectory l = true ∧ l ∉ h.unlisted ∧
    ∃ n ∈ h.tree.namesIn l, decodeName n = name

/-- A file is at a path, with something in it if it may not be empty. -/
def Host.HasFile (h : Host) (nonempty : Bool) (p : Path) : Prop :=
  ∃ l content, h.find p = .ok l ∧ h.tree.node? l = some (.file content) ∧
    (nonempty = true → content ≠ [])

/-- The name has something in front of its last point, and `yml` or `yaml` in any case behind. -/
def IsWorkflowName (name : Text) : Prop :=
  ∃ front ending : Text, name = front ++ .char '.' :: ending ∧ front ≠ [] ∧
    (ending.map CodePoint.toLower = "yml" ∨ ending.map CodePoint.toLower = "yaml")

/-- The name satisfies a condition, and comes first of those that do. -/
def Text.IsLeast (condition : Text → Prop) (name : Text) : Prop :=
  condition name ∧ ∀ other, condition other → Text.le name other = true

theorem Host.filePresent_iff {h : Host} {nonempty : Bool} {p : Path} :
    h.filePresent nonempty p = true ↔ h.HasFile nonempty p := by
  rw [filePresent, holdsAt, HasFile]
  cases hfind : h.find p with
  | error fault => by_cases habsent : isAbsence fault <;> simp [habsent]
  | ok l =>
    cases hnode : h.tree.node? l with
    | none => simp [hnode]
    | some node => cases node <;> cases nonempty <;> simp [hnode, isFilledFile, isFileNode]

/-! ## The suffix of a workflow file -/

namespace Path

/-- A name with something in front of its last point and behind it has that as its suffix. -/
theorem suffixOf_eq {front ending : Text} (hpoint : .char '.' ∉ ending) :
    suffixOf (front ++ .char '.' :: ending) =
      if ending.isEmpty || front.isEmpty then [] else .char '.' :: ending := by
  have hkept : ∀ c ∈ ending.reverse, (c != CodePoint.char '.') = true := fun c hc =>
    bne_iff_ne.2 fun heq => hpoint (heq ▸ List.mem_reverse.1 hc)
  have htail : (front ++ .char '.' :: ending).reverse.takeWhile (· != CodePoint.char '.') =
      ending.reverse := by
    rw [List.reverse_append, List.reverse_cons, List.append_assoc,
      List.takeWhile_append_of_pos hkept]
    simp
  have hfront : decide ((front ++ .char '.' :: ending).length - ending.length ≤ 1) =
      front.isEmpty := by
    rw [Bool.eq_iff_iff, decide_eq_true_iff, List.isEmpty_iff, List.length_append,
      List.length_cons, ← List.length_eq_zero_iff]
    omega
  rw [suffixOf, htail, List.reverse_reverse]
  simp only [hfront]

/-- A name without a point has no suffix. -/
theorem suffixOf_of_notMem {name : Text} (hpoint : .char '.' ∉ name) : suffixOf name = [] := by
  have hall : ∀ c ∈ name.reverse, (c != CodePoint.char '.') = true := fun c hc =>
    bne_iff_ne.2 fun heq => hpoint (heq ▸ List.mem_reverse.1 hc)
  rw [suffixOf, List.takeWhile_eq_self_iff.2 hall]
  simp

end Path

/-- Lower case, seen by a word of small letters other than `i` and `k`, is that of ASCII alone. -/
theorem Text.lower_eq_iff {s word : Text}
    (hword : ∀ c ∈ word, c.toNat < 0x80 ∧ c ≠ .char 'i' ∧ c ≠ .char 'k') :
    Text.lower s = word ↔ s.map CodePoint.toLower = word := by
  induction s generalizing word with
  | nil => exact Iff.rfl
  | cons c s ih =>
    have hcons : Text.lower (c :: s) = Text.lowerChar c ++ Text.lower s := List.flatMap_cons
    rw [hcons, List.map_cons]
    cases word with
    | nil =>
      refine iff_of_false (fun heq => ?_) nofun
      rw [Text.lowerChar] at heq
      split at heq
      · cases heq
      split at heq <;> cases heq
    | cons d word =>
      obtain ⟨⟨hascii, hi, hk⟩, hrest⟩ := List.forall_mem_cons.1 hword
      -- beyond ASCII a code point is its own small letter, and no letter of the word
      have hbeyond : 0x80 ≤ c.toNat → ¬ (c.toLower :: s.map CodePoint.toLower = d :: word) := by
        intro hc heq
        have hd := (List.cons.inj heq).1
        rw [CodePoint.toLower_of_gt (Nat.lt_of_lt_of_le (by decide) hc)] at hd
        rw [hd] at hc
        omega
      rw [Text.lowerChar]
      split
      · rename_i hdotted
        rw [beq_iff_eq] at hdotted
        exact iff_of_false (fun heq => hi (List.cons.inj heq).1.symm) (hbeyond (by omega))
      split
      · rename_i hkelvin
        rw [beq_iff_eq] at hkelvin
        exact iff_of_false (fun heq => hk (List.cons.inj heq).1.symm) (hbeyond (by omega))
      · rw [List.singleton_append, List.cons.injEq, List.cons.injEq, ih hrest]

theorem lower_suffix_eq_iff {ending word : Text}
    (hword : ∀ c ∈ word, c.toNat < 0x80 ∧ c ≠ .char 'i' ∧ c ≠ .char 'k') :
    Text.lower (.char '.' :: ending) = .char '.' :: word ↔
      ending.map CodePoint.toLower = word := by
  have hall : ∀ c ∈ CodePoint.char '.' :: word, c.toNat < 0x80 ∧ c ≠ .char 'i' ∧ c ≠ .char 'k' :=
    List.forall_mem_cons.2 ⟨by decide, hword⟩
  rw [Text.lower_eq_iff hall, List.map_cons, List.cons.injEq]
  exact and_iff_right rfl

namespace Rules

theorem contains_workflowSuffixes {ending : Text} :
    workflowSuffixes.contains (Text.lower (.char '.' :: ending)) = true ↔
      ending.map CodePoint.toLower = "yml" ∨ ending.map CodePoint.toLower = "yaml" := by
  rw [List.contains_iff_mem, workflowSuffixes, List.mem_cons, List.mem_singleton]
  exact or_congr (lower_suffix_eq_iff (by decide)) (lower_suffix_eq_iff (by decide))

/-- **A workflow file** is one with a workflow name. -/
theorem isWorkflow_iff {p : Path} : isWorkflow p = true ↔ IsWorkflowName p.lastName := by
  rw [isWorkflow, Path.suffix]
  generalize p.lastName = name
  have hnone : workflowSuffixes.contains (Text.lower []) = false := by decide
  constructor
  · intro hsuffix
    by_cases hpoint : .char '.' ∈ name
    · -- the last point is the first one from behind
      obtain ⟨behind, before, hname, hlast⟩ :=
        List.eq_append_cons_of_mem (List.mem_reverse.2 hpoint)
      rw [List.reverse_eq_iff, List.reverse_append, List.reverse_cons, List.append_assoc,
        List.singleton_append] at hname
      subst hname
      rw [Path.suffixOf_eq fun hmem => hlast (List.mem_reverse.1 hmem)] at hsuffix
      split at hsuffix
      · exact absurd hsuffix (hnone ▸ Bool.false_ne_true)
      · rename_i hsome
        rw [Bool.or_eq_true, not_or, List.isEmpty_iff, List.isEmpty_iff] at hsome
        exact ⟨_, _, rfl, hsome.2, contains_workflowSuffixes.1 hsuffix⟩
    · rw [Path.suffixOf_of_notMem hpoint] at hsuffix
      exact absurd hsuffix (hnone ▸ Bool.false_ne_true)
  · rintro ⟨front, ending, rfl, hfront, hending⟩
    have hpoint : .char '.' ∉ ending := by
      intro hmem
      have hlower : CodePoint.char '.' ∈ ending.map CodePoint.toLower :=
        List.mem_map.2 ⟨_, hmem, rfl⟩
      rcases hending with heq | heq <;> rw [heq] at hlower <;> exact absurd hlower (by decide)
    have hsome : ending ≠ [] := by
      rintro rfl
      rcases hending with heq | heq <;> cases heq
    rw [Path.suffixOf_eq hpoint, if_neg (by simp [hsome, hfront])]
    exact contains_workflowSuffixes.2 hending

/-! ## The first file in one directory -/

variable {h : Host} {nonempty : Bool} {directory found : Path} {c : Context} {name : Text}
  {s : Settings.ContinuousIntegration}

/-- The name is in the directory, is one of those asked for, and is that of a file. -/
def Candidate (h : Host) (nonempty : Bool) (directory : Path) (named : Text → Prop)
    (name : Text) : Prop :=
  h.Lists directory name ∧ named name ∧ h.HasFile nonempty (directory.child name)

theorem pairwise_ascendingNames (names : List Text) :
    (ascendingNames names).Pairwise fun s t => Text.le s t = true :=
  @List.pairwise_mergeSort _ Text.le (fun _ _ _ => Text.le_trans) Text.le_total _

theorem ascendingNames_eq_of_perm {names names' : List Text} (h : names'.Perm names) :
    ascendingNames names' = ascendingNames names := by
  have hperm : (ascendingNames names').Perm (ascendingNames names) :=
    (List.mergeSort_perm _ _).trans (h.trans (List.mergeSort_perm _ _).symm)
  exact hperm.eq_of_pairwise (fun _ _ _ _ => Text.le_antisymm) (pairwise_ascendingNames _)
    (pairwise_ascendingNames _)

/-- The first of the ascending names that satisfies a condition is the least one that does. -/
theorem isLeast_of_find? {accepts : Text → Bool} {names : List Text}
    (hsorted : names.Pairwise fun s t => Text.le s t = true)
    (hfound : names.find? accepts = some name) :
    Text.IsLeast (fun other => other ∈ names ∧ accepts other = true) name := by
  obtain ⟨haccepted, before, after, rfl, hbefore⟩ := List.find?_eq_some_iff_append.1 hfound
  refine ⟨⟨List.mem_append_right _ List.mem_cons_self, haccepted⟩, ?_⟩
  rintro other ⟨hother, hacceptedOther⟩
  rcases List.mem_append.1 hother with hother | hother
  · have hrejected := hbefore other hother
    rw [hacceptedOther] at hrejected
    cases hrejected
  · rcases List.mem_cons.1 hother with rfl | hother
    · simpa using Text.le_total other other
    · exact (List.pairwise_cons.1 (List.pairwise_append.1 hsorted).2.1).1 other hother

/-- The names of a directory are those that are listed in it. -/
theorem lists_iff :
    h.Lists directory name ↔ ∃ names, h.namesIn? directory = some names ∧ name ∈ names := by
  constructor
  · rintro ⟨l, hfind, hhere, hlisted, hname⟩
    have hlisting : h.listing? directory = some (l, h.tree.namesIn l) :=
      Host.listing?_eq_some_iff.2 ⟨hfind, hhere, hlisted, rfl⟩
    exact ⟨_, by rw [Host.namesIn?, hlisting]; rfl, List.mem_map.2 hname⟩
  · rintro ⟨names, hnames, hname⟩
    obtain ⟨⟨l, entries⟩, hlisting, rfl⟩ := Option.map_eq_some_iff.1 hnames
    obtain ⟨hfind, hhere, hlisted, rfl⟩ := Host.listing?_eq_some_iff.1 hlisting
    exact ⟨l, hfind, hhere, hlisted, List.mem_map.1 hname⟩

/-- The last name of the path of a listed name is that name. -/
theorem lastName_child (hnames : h.tree.KeepsNames) (hlisted : h.Lists directory name) :
    (directory.child name).lastName = name := by
  obtain ⟨l, -, -, -, n, hn, rfl⟩ := hlisted
  rw [(hnames l n hn).child_eq, Path.lastName, Path.under, List.getLast?_concat]
  rfl

/-- **The first file in a directory** is none if there is no candidate, and the least candidate
otherwise. -/
theorem firstFile_spec {accepts : Path → Bool} {named : Text → Prop}
    (hnames : h.tree.KeepsNames) (haccepts : ∀ p, accepts p = true ↔ named p.lastName)
    (htested : ¬ Fails (h.isDirectory directory)) :
    (firstFile h directory accepts nonempty = .ok none ∧
      ∀ name, ¬ Candidate h nonempty directory named name) ∨
    ∃ name, firstFile h directory accepts nonempty = .ok (some (directory.child name)) ∧
      Text.IsLeast (Candidate h nonempty directory named) name := by
  obtain ⟨there, hthere⟩ := not_fails_iff.1 htested
  cases there with
  | false =>
    refine .inl ⟨by rw [firstFile, hthere]; rfl, ?_⟩
    rintro name ⟨⟨l, hfind, hhere, -⟩, -⟩
    cases hthere.symm.trans (Host.isDirectory_of_find hfind hhere)
  | true =>
    rcases hlisting : h.namesIn? directory with _ | names
    · refine .inl ⟨by rw [firstFile, hthere, ok_bind, if_pos rfl, hlisting]; rfl, ?_⟩
      rintro name ⟨hlisted, -⟩
      obtain ⟨names, hnames, -⟩ := lists_iff.1 hlisted
      cases hlisting.symm.trans hnames
    have hcandidate : ∀ name, Candidate h nonempty directory named name ↔
        name ∈ ascendingNames names ∧ (accepts (directory.child name) &&
          h.filePresent nonempty (directory.child name)) = true := by
      intro name
      rw [ascendingNames, List.mem_mergeSort, Bool.and_eq_true, haccepts, Host.filePresent_iff,
        Candidate]
      have hlists : h.Lists directory name ↔ name ∈ names := by
        rw [lists_iff, hlisting]
        simp
      rw [← hlists]
      exact and_congr_right fun hlisted => by rw [lastName_child hnames hlisted]
    have hfirst : firstFile h directory accepts nonempty =
        .ok (((ascendingNames names).find? fun name => accepts (directory.child name) &&
          h.filePresent nonempty (directory.child name)).map directory.child) := by
      rw [firstFile, hthere, ok_bind, if_pos rfl, hlisting]
      dsimp only
      rw [List.find?_map]
      rfl
    rw [hfirst]
    cases hfound : (ascendingNames names).find? fun name => accepts (directory.child name) &&
        h.filePresent nonempty (directory.child name) with
    | none =>
      refine .inl ⟨rfl, fun name hname => ?_⟩
      obtain ⟨hmem, haccepted⟩ := (hcandidate name).1 hname
      exact List.find?_eq_none.1 hfound name hmem haccepted
    | some name =>
      obtain ⟨hname, hleast⟩ := isLeast_of_find? (pairwise_ascendingNames _) hfound
      exact .inr ⟨name, rfl, (hcandidate name).2 hname,
        fun other hother => hleast other ((hcandidate other).1 hother)⟩

/-! ## The search in one directory -/

/-- The pattern of the settings, if there is one, matches the name at its start, as a library has
it. -/
def MatchesPattern (libraries : Libraries) (pattern : Text) (name : Text) : Prop :=
  pattern.isEmpty = false ∧
    ∃ accepts, libraries.matcher pattern = .ok accepts ∧ accepts name = true

/-- A name directly in the directory that the pattern matches, and that is the name of a file. -/
abbrev MatchingFile (h : Host) (s : Settings.ContinuousIntegration) (directory : Path) :
    Text → Prop :=
  Candidate h s.requireNonempty directory (MatchesPattern h.libraries s.fileNamePattern)

/-- A name directly in the workflow directory, if there is one, that is the name of a workflow
file. -/
abbrev WorkflowFile (h : Host) (s : Settings.ContinuousIntegration) (directory : Path)
    (name : Text) : Prop :=
  s.workflowDirectory.isEmpty = false ∧
    Candidate h s.requireNonempty (directory.child s.workflowDirectory) IsWorkflowName name

/-- There is a file of a continuous integration system in a directory or below it: one that the
pattern matches, one at a path of the settings, or a workflow file. -/
def HasIntegration (h : Host) (s : Settings.ContinuousIntegration) (directory : Path) : Prop :=
  (∃ name, MatchingFile h s directory name) ∨
    (∃ name ∈ s.fileNames, h.HasFile s.requireNonempty (directory.child name)) ∨
    ∃ name, WorkflowFile h s directory name

/-- The file that comes first in a directory: the least name that the pattern matches; without one
the first path of the settings at which there is a file; without one the least workflow file. -/
inductive Foremost (h : Host) (s : Settings.ContinuousIntegration) (directory : Path) : Path → Prop
  | matching {name : Text} (hleast : Text.IsLeast (MatchingFile h s directory) name) :
    Foremost h s directory (directory.child name)
  | named {before after : List Text} {name : Text}
    (hmatching : ∀ other, ¬ MatchingFile h s directory other)
    (hnames : s.fileNames = before ++ name :: after)
    (hbefore : ∀ other ∈ before, ¬ h.HasFile s.requireNonempty (directory.child other))
    (hfile : h.HasFile s.requireNonempty (directory.child name)) :
    Foremost h s directory (directory.child name)
  | workflow {name : Text} (hmatching : ∀ other, ¬ MatchingFile h s directory other)
    (hnamed : ∀ other ∈ s.fileNames, ¬ h.HasFile s.requireNonempty (directory.child other))
    (hleast : Text.IsLeast (WorkflowFile h s directory) name) :
    Foremost h s directory ((directory.child s.workflowDirectory).child name)

theorem Foremost.hasIntegration (hforemost : Foremost h s directory found) :
    HasIntegration h s directory := by
  cases hforemost with
  | matching hleast => exact .inl ⟨_, hleast.1⟩
  | named _ hnames _ hfile =>
    exact .inr (.inl ⟨_, hnames ▸ List.mem_append_right _ List.mem_cons_self, hfile⟩)
  | workflow _ _ hleast => exact .inr (.inr ⟨_, hleast.1⟩)

/-- No question that the search in a directory asks is left without an answer. -/
structure Searchable (h : Host) (s : Settings.ContinuousIntegration) (directory : Path) : Prop where
  patternReads : s.fileNamePattern.isEmpty = true ∨
    ¬ Fails (h.libraries.matcher s.fileNamePattern)
  directoryTests : ¬ Fails (h.isDirectory directory)
  workflowsTest : ¬ Fails (h.isDirectory (directory.child s.workflowDirectory))

theorem matchingFile_spec (hnames : h.tree.KeepsNames) (hs : Searchable h s directory) :
    (matchingFile h directory s = .ok none ∧ ∀ name, ¬ MatchingFile h s directory name) ∨
      ∃ name, matchingFile h directory s = .ok (some (directory.child name)) ∧
        Text.IsLeast (MatchingFile h s directory) name := by
  rw [matchingFile]
  cases hempty : s.fileNamePattern.isEmpty with
  | true =>
    refine .inl ⟨rfl, fun name hname => ?_⟩
    cases hempty.symm.trans hname.2.1.1
  | false =>
    have hreads := hs.patternReads.resolve_left (by simp [hempty])
    obtain ⟨accepts, hread⟩ := not_fails_iff.1 hreads
    have haccepts : ∀ p : Path, accepts p.lastName = true ↔
        MatchesPattern h.libraries s.fileNamePattern p.lastName := by
      intro p
      rw [MatchesPattern, hempty, hread]
      simp
    rw [if_neg Bool.false_ne_true, hread, mapError_ok, ok_bind]
    rcases firstFile_spec hnames haccepts hs.directoryTests with
      ⟨hfirst, hnone⟩ | ⟨name, hfirst, hleast⟩
    · rw [hfirst]
      exact .inl ⟨rfl, hnone⟩
    · rw [hfirst]
      exact .inr ⟨name, rfl, hleast⟩

theorem firstPresent?_eq_none_iff {names : List Text} :
    h.firstPresent? nonempty directory names = none ↔
      ∀ name ∈ names, ¬ h.HasFile nonempty (directory.child name) := by
  rw [Host.firstPresent?, List.find?_eq_none, List.forall_mem_map]
  simp only [Host.filePresent_iff]

theorem exists_of_firstPresent? {names : List Text}
    (hfound : h.firstPresent? nonempty directory names = some found) :
    ∃ before name after, found = directory.child name ∧ names = before ++ name :: after ∧
      (∀ other ∈ before, ¬ h.HasFile nonempty (directory.child other)) ∧
      h.HasFile nonempty (directory.child name) := by
  rw [Host.firstPresent?, List.find?_map, Option.map_eq_some_iff] at hfound
  obtain ⟨name, hfirst, rfl⟩ := hfound
  obtain ⟨hpresent, before, after, hnames, hbefore⟩ := List.find?_eq_some_iff_append.1 hfirst
  refine ⟨before, name, after, rfl, hnames, fun other hother hfile => ?_,
    Host.filePresent_iff.1 hpresent⟩
  have hrejected := hbefore other hother
  simp [Host.filePresent_iff.2 hfile] at hrejected

/-- **The search in one directory** finds the foremost file if there is one, and none otherwise. -/
theorem integrationFile_spec (hnames : h.tree.KeepsNames) (hs : Searchable h s directory) :
    (integrationFile h directory s = .ok none ∧ ¬ HasIntegration h s directory) ∨
      ∃ found, integrationFile h directory s = .ok (some found) ∧ Foremost h s directory found := by
  rw [integrationFile]
  rcases matchingFile_spec hnames hs with ⟨hmatching, hnone⟩ | ⟨name, hmatching, hleast⟩
  · rw [hmatching, ok_bind]
    dsimp only
    cases hpresent : h.firstPresent? s.requireNonempty directory s.fileNames with
    | some found =>
      obtain ⟨before, name, after, rfl, hfileNames, hbefore, hfile⟩ :=
        exists_of_firstPresent? hpresent
      exact .inr ⟨_, rfl, .named hnone hfileNames hbefore hfile⟩
    | none =>
      have hnamed := firstPresent?_eq_none_iff.1 hpresent
      dsimp only
      cases hempty : s.workflowDirectory.isEmpty with
      | true =>
        refine .inl ⟨rfl, ?_⟩
        rintro (⟨name, hname⟩ | ⟨name, hmem, hfile⟩ | ⟨name, hworkflow, -⟩)
        · exact hnone name hname
        · exact hnamed name hmem hfile
        · cases hempty.symm.trans hworkflow
      | false =>
        rcases firstFile_spec hnames (fun p => isWorkflow_iff) hs.workflowsTest with
          ⟨hfirst, hnoWorkflow⟩ | ⟨name, hfirst, hleast⟩
        · rw [if_neg Bool.false_ne_true, hfirst]
          refine .inl ⟨rfl, ?_⟩
          rintro (⟨name, hname⟩ | ⟨name, hmem, hfile⟩ | ⟨name, -, hname⟩)
          · exact hnone name hname
          · exact hnamed name hmem hfile
          · exact hnoWorkflow name hname
        · rw [if_neg Bool.false_ne_true, hfirst]
          exact .inr ⟨_, rfl, .workflow hnone hnamed
            ⟨⟨hempty, hleast.1⟩, fun other hother => hleast.2 other hother.2⟩⟩
  · rw [hmatching]
    exact .inr ⟨_, rfl, .matching hleast⟩

/-! ## The directories to search -/

/-- The project directory, and the workspace root where it is to be searched and there is one. -/
def integrationDirectories (c : Context) (s : Settings.ContinuousIntegration) : List Path :=
  c.projectDirectory :: if s.searchWorkspaceRoot then c.workspaceDirectory?.toList else []

/-- To search a directory once more finds nothing new. -/
theorem integrationFileIn_searchDirectories :
    integrationFileIn h s (searchDirectories c s) =
      integrationFileIn h s (integrationDirectories c s) := by
  rw [searchDirectories, integrationDirectories]
  cases c.workspaceDirectory? with
  | none => simp
  | some workspace =>
    cases hsearch : s.searchWorkspaceRoot with
    | false => rfl
    | true =>
      by_cases hsame : workspace = c.projectDirectory
      · subst hsame
        simp only [bne_self_eq_false, Bool.and_false, Bool.false_eq_true, if_false, if_true,
          Option.toList_some, integrationFileIn]
        rcases integrationFile h c.projectDirectory s with fault | (_ | found) <;> rfl
      · simp [hsame]

/-- **The search in several directories** finds the foremost file of the first one in which there is
any. -/
theorem integrationFileIn_spec (hnames : h.tree.KeepsNames) {directories : List Path}
    (hs : ∀ directory ∈ directories, Searchable h s directory) :
    (integrationFileIn h s directories = .ok none ∧
      ∀ directory ∈ directories, ¬ HasIntegration h s directory) ∨
    ∃ found before directory after, integrationFileIn h s directories = .ok (some found) ∧
      directories = before ++ directory :: after ∧
      (∀ other ∈ before, ¬ HasIntegration h s other) ∧ Foremost h s directory found := by
  induction directories with
  | nil => exact .inl ⟨rfl, fun _ hmem => absurd hmem List.not_mem_nil⟩
  | cons directory rest ih =>
    obtain ⟨hfirst, hrest⟩ := List.forall_mem_cons.1 hs
    rw [integrationFileIn]
    rcases integrationFile_spec hnames hfirst with ⟨hfile, hnone⟩ | ⟨found, hfile, hforemost⟩
    · rw [hfile, ok_bind]
      dsimp only
      rcases ih hrest with
        ⟨hall, hnowhere⟩ | ⟨found, before, other, after, hall, rfl, hbefore, hforemost⟩
      · exact .inl ⟨hall, List.forall_mem_cons.2 ⟨hnone, hnowhere⟩⟩
      · exact .inr ⟨found, directory :: before, other, after, hall, rfl,
          List.forall_mem_cons.2 ⟨hnone, hbefore⟩, hforemost⟩
    · rw [hfile]
      exact .inr ⟨found, [], directory, rest, rfl, rfl, fun _ hmem => absurd hmem List.not_mem_nil,
        hforemost⟩

/-! ## Other listings -/

section Relisted

variable {t' : FileTree} (hrelists : h.tree.Relists t')

include hrelists

theorem firstFile_relisted (accepts : Path → Bool) :
    firstFile { h with tree := t' } directory accepts nonempty =
      firstFile h directory accepts nonempty := by
  have hpresent : ({ h with tree := t' } : Host).filePresent nonempty = h.filePresent nonempty :=
    funext (hrelists.filePresent_eq nonempty)
  rw [firstFile, firstFile, hrelists.host_isDirectory_eq, hpresent]
  refine bind_congr fun there => ?_
  cases there with
  | false => rfl
  | true =>
    rw [if_pos rfl, if_pos rfl, Host.namesIn?, Host.namesIn?, hrelists.listing?_eq]
    cases hlisting : h.listing? directory with
    | none => rfl
    | some listing =>
      obtain ⟨l, names⟩ := listing
      obtain ⟨-, -, -, rfl⟩ := Host.listing?_eq_some_iff.1 hlisting
      rw [Option.map_some, Option.map_some, Option.map_some]
      dsimp only
      rw [ascendingNames_eq_of_perm ((hrelists.namesIn_perm l).map decodeName)]

theorem integrationFile_relisted :
    integrationFile { h with tree := t' } directory s = integrationFile h directory s := by
  rw [integrationFile, integrationFile, matchingFile, matchingFile]
  simp only [firstFile_relisted hrelists, hrelists.firstPresent?_eq]

end Relisted

/-- The rule and its note are the same however directories list their names. -/
theorem hasContinuousIntegration_relisted {t' : FileTree} (hrelists : c.host.tree.Relists t')
    (id : Text) :
    hasContinuousIntegration id { c with host := { c.host with tree := t' } } =
      hasContinuousIntegration id c := by
  have hdirectories : searchDirectories { c with host := { c.host with tree := t' } } =
      searchDirectories c := rfl
  have hfile : ∀ s,
      integrationFileIn { c.host with tree := t' } s = integrationFileIn c.host s := by
    intro s
    rw [integrationFileIn_eq_firstSome, integrationFileIn_eq_firstSome]
    exact congrArg firstSome (funext fun directory => integrationFile_relisted hrelists)
  rw [hasContinuousIntegration, hasContinuousIntegration, hdirectories]
  dsimp only
  rw [hrelists.host_isDirectory_eq]
  simp only [hfile]
  rfl

/-! ## The rule -/

section Rule

variable {id : Text}
  (hsettings : c.settings.get id Settings.ContinuousIntegration.ofJson {} = .valid s)

include hsettings

theorem hasContinuousIntegration_of_not_isDirectory
    (hthere : c.host.isDirectory c.projectDirectory = .ok false) :
    hasContinuousIntegration id c = (do
      c.note ("Project directory " ++ c.projectDirectory.text ++ " is not a directory.")
      pure .undetermined) := by
  rw [hasContinuousIntegration, Context.settingsOf_of_valid hsettings, Run.pure_bind, hthere,
    Context.ask_ok_bind, if_neg Bool.false_ne_true]

variable (hthere : c.host.isDirectory c.projectDirectory = .ok true)

include hthere

theorem hasContinuousIntegration_of_found
    (hfound : integrationFileIn c.host s (searchDirectories c s) = .ok (some found)) :
    hasContinuousIntegration id c = (do
      c.note ("Found continuous integration file " ++ found.text)
      pure .success) := by
  rw [hasContinuousIntegration, Context.settingsOf_of_valid hsettings, Run.pure_bind, hthere,
    Context.ask_ok_bind, if_pos rfl, hfound]
  rfl

theorem hasContinuousIntegration_of_none
    (hnone : integrationFileIn c.host s (searchDirectories c s) = .ok none) :
    hasContinuousIntegration id c = pure .failure := by
  rw [hasContinuousIntegration, Context.settingsOf_of_valid hsettings, Run.pure_bind, hthere,
    Context.ask_ok_bind, if_pos rfl, hnone]
  rfl

end Rule

end Rules

open Rules

/-- **The rule finds a file exactly if there is one, and always the same one.**  Without a project
directory it is undetermined.  Otherwise it succeeds if there is a file of a continuous integration
system in the project directory, or in the workspace root where that is to be searched, and fails if
there is none.  The note on a success names the foremost file of the first directory that has any,
and nothing that the rule does depends on the order in which directories list their names. -/
theorem BuiltIn.continuousIntegration_decides {c : Context} {s : Settings.ContinuousIntegration}
    (hsettings : c.settings.get BuiltIn.continuousIntegration.id
      Settings.ContinuousIntegration.ofJson {} = .valid s)
    (hnames : c.host.tree.KeepsNames)
    (hs : ∀ directory ∈ integrationDirectories c s, Searchable c.host s directory)
    (script : Cargo.Script) :
    ∃ outcome, (BuiltIn.continuousIntegration.evaluate c script).value = .ok outcome ∧
      (outcome = .undetermined ↔ c.host.isDirectory c.projectDirectory ≠ .ok true) ∧
      (outcome = .success ↔ c.host.isDirectory c.projectDirectory = .ok true ∧
        ∃ directory ∈ integrationDirectories c s, HasIntegration c.host s directory) ∧
      (outcome = .failure ↔ c.host.isDirectory c.projectDirectory = .ok true ∧
        ∀ directory ∈ integrationDirectories c s, ¬ HasIntegration c.host s directory) ∧
      (outcome = .success → ∃ before directory after found,
        integrationDirectories c s = before ++ directory :: after ∧
        (∀ other ∈ before, ¬ HasIntegration c.host s other) ∧
        Foremost c.host s directory found ∧
        (BuiltIn.continuousIntegration.evaluate c script).events =
          if c.verbose then [.note ("Found continuous integration file " ++ found.text ++ "\n")]
          else []) ∧
      ∀ t', c.host.tree.Relists t' →
        BuiltIn.continuousIntegration.evaluate { c with host := { c.host with tree := t' } } =
          BuiltIn.continuousIntegration.evaluate c := by
  have hrelisted : ∀ t', c.host.tree.Relists t' →
      BuiltIn.continuousIntegration.evaluate { c with host := { c.host with tree := t' } } =
        BuiltIn.continuousIntegration.evaluate c := fun t' hrelists =>
    hasContinuousIntegration_relisted hrelists _
  have hevaluate : BuiltIn.continuousIntegration.evaluate c =
      hasContinuousIntegration BuiltIn.continuousIntegration.id c := rfl
  have hproject := hs c.projectDirectory List.mem_cons_self
  obtain ⟨there, hthere⟩ := not_fails_iff.1 hproject.directoryTests
  cases there with
  | false =>
    refine ⟨.undetermined, ?_, ?_, ?_, ?_, nofun, hrelisted⟩
    · rw [hevaluate, hasContinuousIntegration_of_not_isDirectory hsettings hthere]
      exact (c.noteThen_ending _ _ _).1
    · exact iff_of_true rfl (by simp [hthere])
    · exact iff_of_false nofun (by simp [hthere])
    · exact iff_of_false nofun (by simp [hthere])
  | true =>
    rcases integrationFileIn_spec hnames hs with
      ⟨hfile, hnone⟩ | ⟨found, before, directory, after, hfile, hall, hbefore, hforemost⟩
    · rw [← integrationFileIn_searchDirectories] at hfile
      refine ⟨.failure, ?_, ?_, ?_, ?_, nofun, hrelisted⟩
      · rw [hevaluate, hasContinuousIntegration_of_none hsettings hthere hfile]
        rfl
      · exact iff_of_false nofun (by simp [hthere])
      · refine iff_of_false nofun ?_
        rintro ⟨-, directory, hmem, hhas⟩
        exact hnone directory hmem hhas
      · exact iff_of_true rfl ⟨hthere, hnone⟩
    · rw [← integrationFileIn_searchDirectories] at hfile
      have hhas := hforemost.hasIntegration
      have hmem : directory ∈ integrationDirectories c s :=
        hall ▸ List.mem_append_right _ List.mem_cons_self
      have hrun := hasContinuousIntegration_of_found hsettings hthere hfile
      refine ⟨.success, ?_, ?_, ?_, ?_, fun _ => ?_, hrelisted⟩
      · rw [hevaluate, hrun]
        exact (c.noteThen_ending _ _ _).1
      · exact iff_of_false nofun (by simp [hthere])
      · exact iff_of_true rfl ⟨hthere, directory, hmem, hhas⟩
      · refine iff_of_false nofun ?_
        rintro ⟨-, hnone⟩
        exact hnone directory hmem hhas
      · refine ⟨before, directory, after, found, hall, hbefore, hforemost, ?_⟩
        rw [hevaluate, hrun, Context.events_noteThen]

/-- Two files match the pattern of the default settings; the least is named, though the other one is
listed before it. -/
theorem BuiltIn.continuousIntegration_decides_reversed :
    let tree : FileTree := ⟨[([[112]], .directory),
      ([Text.Utf8.encodeString ".drone.yml", [112]], .file []),
      ([Text.Utf8.encodeString ".travis.yml", [112]], .file [])]⟩
    let c : Context := {
      manifest := .ofText "/p/Cargo.toml"
      metadataResult := { status := .unavailable }
      verbose := true
      host := { tree := tree } }
    let reversed : Context := { c with host := { c.host with tree := ⟨tree.entries.reverse⟩ } }
    c.settings.get BuiltIn.continuousIntegration.id Settings.ContinuousIntegration.ofJson {} =
        .valid {} ∧
      tree.KeepsNames ∧
      (∀ directory ∈ integrationDirectories c {}, Searchable c.host {} directory) ∧
      (BuiltIn.continuousIntegration.evaluate reversed []).value = .ok .success ∧
      (BuiltIn.continuousIntegration.evaluate reversed []).events =
        [.note "Found continuous integration file /p/.drone.yml\n"] := by
  intro tree c reversed
  have hsettings : c.settings.get BuiltIn.continuousIntegration.id
      Settings.ContinuousIntegration.ofJson {} = .valid {} := rfl
  have hnames : tree.KeepsNames := FileTree.keepsNames_of_entries (by decide +kernel)
  have hs : ∀ directory ∈ integrationDirectories c {}, Searchable c.host {} directory :=
    List.forall_mem_singleton.2 {
      patternReads := .inr (not_fails_iff.2 c.host.libraries.matcher_initial)
      directoryTests := by decide +kernel
      workflowsTest := by decide +kernel }
  have hthere : c.host.isDirectory c.projectDirectory = .ok true := by decide +kernel
  have hfind : c.host.find c.projectDirectory = .ok [[112]] := by decide +kernel
  have hlisting : (c.host.tree.namesIn [[112]]).map decodeName = [".drone.yml", ".travis.yml"] := by
    decide +kernel
  have hmatching : MatchingFile c.host {} c.projectDirectory ".drone.yml" := by
    refine ⟨⟨_, hfind, by decide +kernel, List.not_mem_nil,
        List.mem_map.1 (hlisting ▸ List.mem_cons_self)⟩,
      ⟨rfl, _, rfl, by decide +kernel⟩, Host.filePresent_iff.1 (by decide +kernel)⟩
  have hrelists : tree.Relists ⟨tree.entries.reverse⟩ :=
    FileTree.relists_of_perm (by decide +kernel) (List.reverse_perm _)
  obtain ⟨outcome, hvalue, -, hsuccess, -, hnote, hrelisted⟩ :=
    BuiltIn.continuousIntegration_decides hsettings hnames hs []
  obtain rfl := hsuccess.2 ⟨hthere, _, List.mem_cons_self, .inl ⟨_, hmatching⟩⟩
  obtain ⟨before, directory, after, found, hall, -, hforemost, hevents⟩ := hnote rfl
  -- there is one directory, and its least matching name is in front of the other one
  have hmem : directory ∈ integrationDirectories c {} :=
    hall ▸ List.mem_append_right before List.mem_cons_self
  obtain rfl := List.mem_singleton.1 hmem
  have hfound : found = c.projectDirectory.child ".drone.yml" := by
    cases hforemost with
    | @matching name hleast =>
      obtain ⟨⟨⟨l, hl, -, -, hname⟩, -⟩, hbefore⟩ := hleast
      obtain rfl := Except.ok.inj (hfind.symm.trans hl)
      have hname := hlisting ▸ List.mem_map.2 hname
      have hle := hbefore _ hmatching
      rcases List.mem_cons.1 hname with rfl | hname
      · rfl
      · obtain rfl := List.mem_singleton.1 hname
        cases hle
    | named hnone => exact absurd hmatching (hnone _)
    | workflow hnone => exact absurd hmatching (hnone _)
  rw [hrelisted _ hrelists, hevents, hfound]
  exact ⟨hsettings, hnames, hs, hvalue, by decide +kernel⟩

end ProjectAudit
