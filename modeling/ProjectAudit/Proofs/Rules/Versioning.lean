import ProjectAudit.Proofs.Audit.UpwardSearch
import ProjectAudit.Proofs.Rules.Faults

/-!
# The directory of a version control system

The rule goes up from the directory of the manifest, once the manifest is resolved, and asks in each
directory for each of the names in the settings.  It ends at the first one that is the name of a
directory.  The walk ends at the directory that is its own parent, so it passes all directories that
enclose the one where it begins, and no others, each with one name less than the one before.

So what a project comes to depends on where its manifest is after resolving: whatever is found from
one directory is found from each directory below.  It is not so for the directory that the manifest
is written in.  If the manifest there is a link, the walk begins where the link leads, and what is
found on that way may be out of reach for the projects beside and below the link.

* `Path.WalksUp`: the directories that are passed on the way up.
* `Path.mem_searched_iff`: they are those that enclose the first one.
* `Rules.IsControlled`, `Rules.Controls`: that there is a directory with one of the names, and which
  one comes first.
* `BuiltIn.sourceControl_decides`: the rule, its note, and projects further below.
* `BuiltIn.sourceControl_linkedManifest`: a manifest that is a link.
-/

namespace ProjectAudit

/-! ## The way up -/

namespace Path

/-- On the way up from a directory these are passed: each is the parent of the one before, and the
last one is its own parent. -/
inductive WalksUp : Path → List Path → Prop
  | top {d : Path} (htop : d.parent = d) : WalksUp d [d]
  | up {d : Path} {rest : List Path} (hup : d.parent ≠ d) (hrest : WalksUp d.parent rest) :
    WalksUp d (d :: rest)

variable {d q : Path}

/-- **The way up ends**, from every directory. -/
theorem walksUp_searched (d : Path) : WalksUp d d.searched := by
  induction d using under_induction with
  | bare anchor => exact .top rfl
  | under p name ih =>
    rw [searched_under]
    exact .up (parent_ne_under p name) ((parent_under p name).symm ▸ ih)

/-- The directories above a path are those from its parent on. -/
theorem ancestors_eq (p : Path) : p.ancestors = p.parent.searched := by
  induction p using under_induction with
  | bare anchor => rfl
  | under p name _ =>
    have hsearched : (p.under name).searched = p.under name :: (p.under name).ancestors := by
      rw [searched, if_neg (by simp [under])]
    rw [parent_under]
    exact (List.cons.inj (hsearched.symm.trans (searched_under p name))).2

/-- **What is passed on the way up** is what encloses the directory where it begins. -/
theorem mem_searched_iff : q ∈ d.searched ↔ q.Encloses d := by
  induction d using under_induction with
  | bare anchor => rw [encloses_of_names_eq_nil rfl]; exact List.mem_singleton
  | under p name ih => rw [searched_under, List.mem_cons, ih, encloses_under]

/-- The deepest directory comes first. -/
theorem pairwise_searched (d : Path) :
    d.searched.Pairwise fun inner outer => outer.names.length < inner.names.length := by
  induction d using under_induction with
  | bare anchor => exact List.pairwise_singleton _ _
  | under p name ih =>
    rw [searched_under]
    refine List.pairwise_cons.2 ⟨fun outer houter => ?_, ih⟩
    rw [under, List.length_append, List.length_singleton]
    exact Nat.lt_succ_of_le (mem_searched_iff.1 houter).length_le

/-- What is passed before a directory is what is deeper. -/
theorem mem_before_iff {before after : List Path} {above : Path}
    (hall : d.searched = before ++ above :: after) :
    q ∈ before ↔ q.Encloses d ∧ above.names.length < q.names.length := by
  have hpairwise := hall ▸ pairwise_searched d
  obtain ⟨-, hafter, hdeeper⟩ := List.pairwise_append.1 hpairwise
  rw [← mem_searched_iff, hall]
  constructor
  · intro hq
    exact ⟨List.mem_append_left _ hq, hdeeper q hq above List.mem_cons_self⟩
  · rintro ⟨hq, hlonger⟩
    refine (List.mem_append.1 hq).resolve_right fun hlater => ?_
    rcases List.mem_cons.1 hlater with rfl | hlater
    · exact Nat.lt_irrefl _ hlonger
    · exact Nat.lt_asymm hlonger ((List.pairwise_cons.1 hafter).1 q hlater)

end Path

namespace Rules

/-! ## What is found -/

variable {h : Host} {names : List Text} {d above : Path} {name : Text}

/-- In the directory or above it, one of the names is that of a directory. -/
def IsControlled (h : Host) (names : List Text) (d : Path) : Prop :=
  ∃ above : Path, above.Encloses d ∧ ∃ name ∈ names, h.isDirectory (above.child name) = .ok true

/-- The name is the first one that is that of a directory, seen from a given one. -/
structure IsFirstName (h : Host) (names : List Text) (above : Path) (name : Text) : Prop where
  present : h.isDirectory (above.child name) = .ok true
  first : ∃ before after, names = before ++ name :: after ∧
    ∀ other ∈ before, h.isDirectory (above.child other) = .ok false

/-- Going up from a directory, this is the deepest one in which one of the names is that of a
directory, and there the name is the first one. -/
structure Controls (h : Host) (names : List Text) (d above : Path) (name : Text) : Prop where
  encloses : above.Encloses d
  firstName : IsFirstName h names above name
  none_below : ∀ between : Path, between.Encloses d → above.names.length < between.names.length →
    ∀ other ∈ names, h.isDirectory (between.child other) = .ok false

theorem Controls.isControlled (hcontrols : Controls h names d above name) :
    IsControlled h names d := by
  obtain ⟨hencloses, ⟨hpresent, before, after, rfl, -⟩, -⟩ := hcontrols
  exact ⟨above, hencloses, name, List.mem_append_right _ List.mem_cons_self, hpresent⟩

/-- What is found from one directory is found from each directory below. -/
theorem IsControlled.of_encloses {below : Path} (hcontrolled : IsControlled h names d)
    (hencloses : d.Encloses below) : IsControlled h names below := by
  obtain ⟨above, habove, hnamed⟩ := hcontrolled
  exact ⟨above, habove.trans hencloses, hnamed⟩

theorem directoryNamed_eq_some_iff {found : Text} :
    directoryNamed h above name = .ok (some found) ↔
      name = found ∧ h.isDirectory (above.child found) = .ok true := by
  rw [directoryNamed]
  constructor
  · intro hnamed
    obtain ⟨present, hpresent, hfound⟩ := map_eq_ok.1 hnamed
    obtain ⟨rfl, hname⟩ := Option.ite_none_right_eq_some.1 hfound
    obtain rfl := Option.some.inj hname
    exact ⟨rfl, hpresent⟩
  · rintro ⟨rfl, hpresent⟩
    rw [hpresent]
    rfl

theorem firstDirectory_eq_some_iff :
    firstDirectory h above names = .ok (some name) ↔ IsFirstName h names above name := by
  rw [firstDirectory_eq_firstSome, firstSome_eq_some_iff]
  simp only [directoryNamed_eq_some_iff, ReachedBy, directoryNamed_eq_none_iff]
  constructor
  · rintro ⟨_, hreached, rfl, hpresent⟩
    exact ⟨hpresent, hreached⟩
  · rintro ⟨hpresent, hreached⟩
    exact ⟨name, hreached, rfl, hpresent⟩

theorem controlledBy_eq_some_iff {place : Path} :
    controlledBy h names above = .ok (some (place, name)) ↔
      above = place ∧ IsFirstName h names place name := by
  rw [controlledBy, map_eq_ok]
  constructor
  · rintro ⟨found, hfound, hplace⟩
    obtain ⟨name', rfl, hsame⟩ := Option.map_eq_some_iff.1 hplace
    obtain ⟨rfl, rfl⟩ := Prod.mk.inj hsame
    exact ⟨rfl, firstDirectory_eq_some_iff.1 hfound⟩
  · rintro ⟨rfl, hfirst⟩
    exact ⟨some name, firstDirectory_eq_some_iff.2 hfirst, rfl⟩

/-- **What the search comes to** is the first name in the deepest directory with one. -/
theorem controlDirectory_eq_some_iff :
    controlDirectory h names d.searched = .ok (some (above, name)) ↔
      Controls h names d above name := by
  rw [controlDirectory_eq_firstSome, firstSome_eq_some_iff]
  simp only [controlledBy_eq_some_iff, ReachedBy, controlledBy_eq_none_iff]
  constructor
  · rintro ⟨_, ⟨before, after, hall, hbefore⟩, rfl, hfirst⟩
    have hmem := hall ▸ List.mem_append_right before List.mem_cons_self
    refine ⟨Path.mem_searched_iff.1 hmem, hfirst, fun between hbetween hlonger => ?_⟩
    exact hbefore between ((Path.mem_before_iff hall).2 ⟨hbetween, hlonger⟩)
  · rintro ⟨hencloses, hfirst, hnone⟩
    obtain ⟨before, after, hall⟩ := List.append_of_mem (Path.mem_searched_iff.2 hencloses)
    refine ⟨above, ⟨before, after, hall, fun between hbetween => ?_⟩, rfl, hfirst⟩
    obtain ⟨hencloses, hlonger⟩ := (Path.mem_before_iff hall).1 hbetween
    exact hnone between hencloses hlonger

/-- There is one such directory and one such name at most. -/
theorem Controls.unique {above' : Path} {name' : Text} (hcontrols : Controls h names d above name)
    (hcontrols' : Controls h names d above' name') : above = above' ∧ name = name' := by
  have hfound := controlDirectory_eq_some_iff.2 hcontrols
  rw [controlDirectory_eq_some_iff.2 hcontrols'] at hfound
  obtain ⟨rfl, rfl⟩ := Prod.mk.inj (Option.some.inj (Except.ok.inj hfound))
  exact ⟨rfl, rfl⟩

/-- It comes to nothing exactly if every question is answered with no. -/
theorem controlDirectory_eq_none_iff :
    controlDirectory h names d.searched = .ok none ↔
      ∀ above : Path, above.Encloses d → ∀ name ∈ names,
        h.isDirectory (above.child name) = .ok false := by
  rw [controlDirectory_eq_firstSome, firstSome_eq_none_iff]
  simp only [Path.mem_searched_iff, controlledBy_eq_none_iff]

theorem not_isControlled_of_none (hnone : controlDirectory h names d.searched = .ok none) :
    ¬ IsControlled h names d := by
  rintro ⟨above, hencloses, name, hname, hpresent⟩
  cases hpresent.symm.trans (controlDirectory_eq_none_iff.1 hnone above hencloses name hname)

/-! ## The rule -/

variable {c : Context} {settings : Settings.SourceControl} {manifest : Path}

/-- Unless a test fails, the search finds a directory or nothing. -/
theorem controlDirectory_spec (hmanifest : c.host.resolve c.manifest = .ok manifest)
    (htests : ¬ ControlFaults c settings) :
    controlDirectory c.host settings.directories manifest.ancestors = .ok none ∧
        ¬ IsControlled c.host settings.directories manifest.parent ∨
      ∃ above name, controlDirectory c.host settings.directories manifest.ancestors =
          .ok (some (above, name)) ∧
        Controls c.host settings.directories manifest.parent above name := by
  have hends : ¬ Fails (controlDirectory c.host settings.directories manifest.ancestors) := by
    intro hfails
    obtain ⟨before, above, after, hall, hbefore, hfails⟩ := fails_controlDirectory_iff.1 hfails
    exact htests (.inr ⟨manifest, hmanifest, before, above, after, hall, hbefore,
      fails_controlledBy_iff.1 hfails⟩)
  obtain ⟨found, hfound⟩ := not_fails_iff.1 hends
  rw [Path.ancestors_eq] at hfound ⊢
  rcases found with _ | ⟨above, name⟩
  · exact .inl ⟨hfound, not_isControlled_of_none hfound⟩
  · exact .inr ⟨above, name, hfound, controlDirectory_eq_some_iff.1 hfound⟩

section Rule

variable {id : Text}
  (hsettings : c.settings.get id Settings.SourceControl.ofJson {} = .valid settings)
  (hmanifest : c.host.resolve c.manifest = .ok manifest)

include hsettings in
/-- A rule that comes to an outcome meets no test that fails. -/
theorem not_controlFaults_of_value {script : Cargo.Script} {outcome : Outcome}
    (hvalue : (underSourceControl id c script).value = .ok outcome) :
    ¬ ControlFaults c settings := by
  rw [← faults_underSourceControl_iff (Context.settingsOf_of_valid hsettings), Run.Faults, hvalue]
  exact not_fails_ok outcome

include hsettings hmanifest

theorem underSourceControl_of_found
    (hfound : controlDirectory c.host settings.directories manifest.ancestors =
      .ok (some (above, name))) :
    underSourceControl id c = (do
      c.note ("Found " ++ name ++ " in " ++ above.text)
      pure .success) := by
  rw [underSourceControl, Context.settingsOf_of_valid hsettings, Run.pure_bind, hmanifest,
    Context.ask_ok_bind, hfound, Context.ask_ok_bind]

theorem underSourceControl_of_none
    (hnone : controlDirectory c.host settings.directories manifest.ancestors = .ok none) :
    underSourceControl id c = pure .failure := by
  rw [underSourceControl, Context.settingsOf_of_valid hsettings, Run.pure_bind, hmanifest,
    Context.ask_ok_bind, hnone, Context.ask_ok_bind]

/-- **What the rule comes to**, unless a test fails. -/
theorem underSourceControl_spec (htests : ¬ ControlFaults c settings) (script : Cargo.Script) :
    (underSourceControl id c script).value = .ok .failure ∧
        ¬ IsControlled c.host settings.directories manifest.parent ∨
      (underSourceControl id c script).value = .ok .success ∧
        ∃ above name, Controls c.host settings.directories manifest.parent above name ∧
          (underSourceControl id c script).events =
            if c.verbose then [.note ("Found " ++ name ++ " in " ++ above.text ++ "\n")]
            else [] := by
  rcases controlDirectory_spec hmanifest htests with
    ⟨hsearch, hnone⟩ | ⟨above, name, hsearch, hcontrols⟩
  · rw [underSourceControl_of_none hsettings hmanifest hsearch]
    exact .inl ⟨rfl, hnone⟩
  · rw [underSourceControl_of_found hsettings hmanifest hsearch]
    exact .inr ⟨(c.noteThen_ending _ _ _).1, above, name, hcontrols, c.events_noteThen _ _ _⟩

end Rule

end Rules

open Rules

/-- **The rule goes up from the resolved manifest.**

The way up from the directory of the resolved manifest ends, and what is passed is what encloses
that directory, the root included.  If no test fails, the rule succeeds if one of the names in the
settings is that of a directory at one of these places, and it fails otherwise.  The note names the
deepest of these places, and the first of the names there.

If it succeeds, let the directory that the manifest was given in be resolved, and let the resolved
manifest be in that directory or above it.  Then the rule succeeds, with the same settings, for
every manifest that is resolved to a place below. -/
theorem BuiltIn.sourceControl_decides {c : Context} {settings : Settings.SourceControl}
    {manifest : Path}
    (hsettings : c.settings.get BuiltIn.sourceControl.id Settings.SourceControl.ofJson {} =
      .valid settings)
    (hmanifest : c.host.resolve c.manifest = .ok manifest) (htests : ¬ ControlFaults c settings)
    (script : Cargo.Script) :
    Path.WalksUp manifest.parent manifest.ancestors ∧
      (∀ above, above ∈ manifest.ancestors ↔ above.Encloses manifest.parent) ∧
      ∃ outcome, (BuiltIn.sourceControl.evaluate c script).value = .ok outcome ∧
        (outcome = .success ↔ IsControlled c.host settings.directories manifest.parent) ∧
        (outcome = .failure ↔ ¬ IsControlled c.host settings.directories manifest.parent) ∧
        (outcome = .success → ∃ above name,
          Controls c.host settings.directories manifest.parent above name ∧
          (BuiltIn.sourceControl.evaluate c script).events =
            if c.verbose then [.note ("Found " ++ name ++ " in " ++ above.text ++ "\n")] else []) ∧
        (outcome = .success → ∀ directory, c.host.resolve c.projectDirectory = .ok directory →
          manifest.parent.Encloses directory →
          ∀ (c' : Context) (manifest' : Path) (script' : Cargo.Script), c'.host = c.host →
            c'.settings.get BuiltIn.sourceControl.id Settings.SourceControl.ofJson {} =
              .valid settings →
            c'.host.resolve c'.manifest = .ok manifest' → directory.Encloses manifest'.parent →
            ¬ ControlFaults c' settings →
            (BuiltIn.sourceControl.evaluate c' script').value = .ok .success) := by
  refine ⟨Path.ancestors_eq manifest ▸ Path.walksUp_searched manifest.parent,
    fun above => Path.ancestors_eq manifest ▸ Path.mem_searched_iff, ?_⟩
  rcases underSourceControl_spec hsettings hmanifest htests script with
    ⟨hvalue, hnone⟩ | ⟨hvalue, above, name, hcontrols, hevents⟩
  · exact ⟨.failure, hvalue, iff_of_false nofun hnone, iff_of_true rfl hnone, nofun, nofun⟩
  · have hcontrolled := hcontrols.isControlled
    refine ⟨.success, hvalue, iff_of_true rfl hcontrolled, ?_,
      fun _ => ⟨above, name, hcontrols, hevents⟩, ?_⟩
    · exact iff_of_false nofun (not_not.2 hcontrolled)
    intro _ directory _ hdirectory c' manifest' script' hhost hsettings' hmanifest' hbelow htests'
    have hcontrolled' : IsControlled c'.host settings.directories manifest'.parent :=
      hhost ▸ hcontrolled.of_encloses (hdirectory.trans hbelow)
    rcases underSourceControl_spec hsettings' hmanifest' htests' script' with
      ⟨-, hnone⟩ | ⟨hvalue', -⟩
    · exact absurd hcontrolled' hnone
    · exact hvalue'

/-- The project is given by a link to its directory.  What is found is above the place that the link
leads to, and a project in that directory finds it too. -/
theorem BuiltIn.sourceControl_decides_linked :
    let manifestName := Text.Utf8.encodeString "Cargo.toml"
    let h : Host := {
      tree := ⟨[([[112]], .directory), ([Text.Utf8.encodeString ".git", [112]], .directory),
        ([[100], [112]], .directory), ([manifestName, [100], [112]], .file []),
        ([[115], [100], [112]], .directory), ([manifestName, [115], [100], [112]], .file []),
        ([[108]], .link [112, 47, 100])]⟩ }
    let c (text : Text) : Context := {
      manifest := .ofText text
      metadataResult := { status := .unavailable }
      verbose := true
      host := h }
    h.resolve (.ofText "/l/Cargo.toml") = .ok (.ofText "/p/d/Cargo.toml") ∧
      ¬ ControlFaults (c "/l/Cargo.toml") {} ∧
      (BuiltIn.sourceControl.evaluate (c "/l/Cargo.toml") []).value = .ok .success ∧
      (BuiltIn.sourceControl.evaluate (c "/l/Cargo.toml") []).events =
        [.note "Found .git in /p\n"] ∧
      (BuiltIn.sourceControl.evaluate (c "/p/d/s/Cargo.toml") []).value = .ok .success := by
  intro manifestName h c
  have hsettings : ∀ text, (c text).settings.get BuiltIn.sourceControl.id
      Settings.SourceControl.ofJson {} = .valid {} := fun _ => rfl
  have hmanifest : h.resolve (.ofText "/l/Cargo.toml") = .ok (.ofText "/p/d/Cargo.toml") := by
    decide +kernel
  have hanswers : (BuiltIn.sourceControl.evaluate (c "/l/Cargo.toml") []).value = .ok .success ∧
      (BuiltIn.sourceControl.evaluate (c "/p/d/s/Cargo.toml") []).value = .ok .success := by
    decide +kernel
  have htests : ¬ ControlFaults (c "/l/Cargo.toml") {} :=
    not_controlFaults_of_value (hsettings _) hanswers.1
  have hcontrols : Controls h ({} : Settings.SourceControl).directories (.ofText "/p/d")
      (.ofText "/p") ".git" := controlDirectory_eq_some_iff.1 (by decide +kernel)
  obtain ⟨-, -, outcome, hvalue, hsuccess, -, hnote, hbelow⟩ :=
    BuiltIn.sourceControl_decides (hsettings _) hmanifest htests []
  obtain rfl := hsuccess.2 hcontrols.isControlled
  obtain ⟨above, name, hcontrols', hevents⟩ := hnote rfl
  obtain ⟨rfl, rfl⟩ := hcontrols.unique hcontrols'
  refine ⟨hmanifest, htests, hvalue, hevents.trans (by decide +kernel), ?_⟩
  exact hbelow rfl (.ofText "/p/d") (by decide +kernel) (.refl _) (c "/p/d/s/Cargo.toml")
    (.ofText "/p/d/s/Cargo.toml") [] rfl (hsettings _) (by decide +kernel)
    ⟨rfl, by decide +kernel⟩ (not_controlFaults_of_value (hsettings _) hanswers.2)

/-- **A manifest that is a link** leads the rule to another directory.  What is found there is not
above the directory that the manifest is in, and a project below that directory does not find it. -/
theorem BuiltIn.sourceControl_linkedManifest :
    let manifestName := Text.Utf8.encodeString "Cargo.toml"
    let h : Host := {
      tree := ⟨[([[100]], .directory),
        ([manifestName, [100]], .link (Text.Utf8.encodeString "../e/Cargo.toml")),
        ([[101]], .directory), ([manifestName, [101]], .file []),
        ([Text.Utf8.encodeString ".git", [101]], .directory),
        ([[115], [100]], .directory), ([manifestName, [115], [100]], .file [])]⟩ }
    let c (text : Text) : Context := {
      manifest := .ofText text
      metadataResult := { status := .unavailable }
      host := h }
    h.resolve (c "/d/Cargo.toml").projectDirectory = .ok (.ofText "/d") ∧
      (BuiltIn.sourceControl.evaluate (c "/d/Cargo.toml") []).value = .ok .success ∧
      h.resolve (c "/d/s/Cargo.toml").manifest = .ok (.ofText "/d/s/Cargo.toml") ∧
      (Path.ofText "/d").Encloses (.ofText "/d/s/Cargo.toml") ∧
      (BuiltIn.sourceControl.evaluate (c "/d/s/Cargo.toml") []).value = .ok .failure := by
  refine ⟨by decide +kernel, by decide +kernel, by decide +kernel, ⟨rfl, ?_⟩, by decide +kernel⟩
  decide +kernel

end ProjectAudit
