import ProjectAudit.Audit.Failure
import ProjectAudit.Proofs.Files.Refusals
import ProjectAudit.Proofs.Settings.Freezing

/-!
# Loading a file of settings

A file of settings is read as bytes, decoded, parsed, and the value in it is checked and frozen.
Each of these steps can end without a result.  What the system denies, text that is no JSON and JSON
that holds no settings are failures that the user can mend, with a wording of their own.  The rest
is not foreseen by the loader and ends the run as it is: a path that cannot be given to the system,
bytes that are no text, a value beyond the limits of the reader, and settings that can be read but
are nested too deep to be frozen.

* `RuleSettings.Holds`: a value holds settings.
* `RuleSettings.load_classifies`: what comes of a file of settings, and when it is a failure that
  the user can mend.
* `RuleSettings.load_undecodable`: a file whose bytes are no text, on which loading ends unforeseen.
-/

namespace ProjectAudit

open Json

namespace RuleSettings

/-! ## Values that hold settings -/

/-- A value holds settings: it is an object, and so is each field of the object under `rules`, or
of the value itself if it has no such field. -/
def Holds (v : Json) (s : RuleSettings) : Prop :=
  ∃ fields, v = .obj fields ∧
    (fieldOf? "rules" fields).getD v = .obj (s.entries.map fun e => (e.1, .obj e.2))

theorem entriesOf_map (entries : List (Text × List (Text × Json))) :
    entriesOf (entries.map fun e => (e.1, .obj e.2)) = .valid entries := by
  induction entries with
  | nil => rfl
  | cons e entries ih =>
    rw [List.map_cons, entriesOf, ih]
    rfl

theorem ofEntries_eq_valid_iff {v : Json} {s : RuleSettings} :
    ofEntries v = .valid s ↔ v = .obj (s.entries.map fun e => (e.1, .obj e.2)) := by
  constructor
  · intro hvalid
    cases v with
    | obj fields =>
      obtain ⟨entries, hentries, rfl⟩ := Checked.map_eq_valid.1 hvalid
      rw [entries_ofList, entriesOf_eq_valid hentries]
    | _ => cases hvalid
  · rintro rfl
    rw [ofEntries, entriesOf_map, Checked.map, ofList_entries]

theorem ofJson_wrapped_eq_valid_iff {v : Json} {s : RuleSettings} :
    ofJson (wrapped v) = .valid s ↔ Holds v s := by
  cases v with
  | obj fields =>
    have hofJson : ofJson (wrapped (.obj fields)) =
        (ofEntries ((fieldOf? "rules" fields).getD (.obj fields))).under (.field "rules") := by
      rw [wrapped]
      cases hrules : fieldOf? "rules" fields with
      | none => rfl
      | some rules =>
        rw [Option.isSome_some, if_pos rfl, ofJson, toRecord, optionalField, hrules]
        rfl
    rw [hofJson, Checked.under_eq_valid, ofEntries_eq_valid_iff]
    constructor
    · exact fun hrules => ⟨fields, rfl, hrules⟩
    · rintro ⟨_, hfields, hrules⟩
      obtain rfl := Json.obj.inj hfields
      exact hrules
  | _ =>
    constructor
    · intro hvalid
      cases hvalid
    · rintro ⟨fields, hobj, -⟩
      cases hobj

/-! ## The steps of loading -/

theorem load_eq (h : Host) (path : Path) :
    load h path =
      match h.readText Text.Utf8.decode path with
      | .error (.unreadable fault) =>
        .error (if fault.isRefusal then .unreadable path fault.message else .path fault)
      | .error (.undecodable e) => .error (.undecodable e)
      | .ok text =>
        match Json.read text with
        | .error (.malformed e) => .error (.unreadable path e.message)
        | .error (.limit l) => .error (.limit l)
        | .ok v =>
          match ofJson (wrapped v) with
          | .invalid issues => .error (.invalid path issues)
          | .valid s => (freeze s.entries).mapError .limit := by
  rw [load]
  rcases h.readText Text.Utf8.decode path with (fault | e) | text
  · rfl
  · rfl
  · rcases hjson : Json.read text with (e | l) | v
    · simp [hjson, bind, Except.bind, mapError_ok, mapError_error]
    · simp [hjson, bind, Except.bind, mapError_ok, mapError_error]
    · cases hchecked : ofJson (wrapped v) <;>
      simp [hjson, hchecked, Checked.toExcept, bind, Except.bind, mapError_ok, mapError_error]

/-- What is wrong with a file of settings, with the failure that its user can mend. -/
inductive BadFile (h : Host) (path : Path) : SetupFailure → Prop
  /-- The system denies the file. -/
  | denied {fault : PathFault} (hgiven : path.CanBeGiven)
    (hfile : h.fileContent path = .error fault) :
    BadFile h path (.settingsUnreadable path fault.message)
  /-- The text in the file is no JSON. -/
  | malformed {text : Text} {e : Json.SyntaxError}
    (hread : h.readText Text.Utf8.decode path = .ok text)
    (hjson : Json.read text = .error (.malformed e)) :
    BadFile h path (.settingsUnreadable path e.message)
  /-- The JSON in the file holds no settings. -/
  | invalid {text : Text} {v : Json} {issues : List Issue}
    (hread : h.readText Text.Utf8.decode path = .ok text) (hjson : Json.read text = .ok v)
    (hissues : ofJson (wrapped v) = .invalid issues) :
    BadFile h path (.settingsInvalid path issues)

/-- A flaw of a file of settings that its loader does not foresee. -/
inductive Unforeseen (h : Host) (path : Path) : Prop
  /-- The system cannot be asked for the file. -/
  | path (hgiven : ¬ path.CanBeGiven)
  /-- The bytes in the file are no text. -/
  | bytes {content : List UInt8} (hfile : h.fileContent path = .ok content)
    (hdecode : Fails (Text.Utf8.decode content))
  /-- The text in the file goes beyond what can be read of JSON. -/
  | limit {text : Text} {l : Json.Limit} (hread : h.readText Text.Utf8.decode path = .ok text)
    (hjson : Json.read text = .error (.limit l))
  /-- The settings in the file are nested deeper than what can be frozen. -/
  | deep {text : Text} {v : Json} {s : RuleSettings}
    (hread : h.readText Text.Utf8.decode path = .ok text) (hjson : Json.read text = .ok v)
    (hholds : Holds v s) (hdeep : ¬ s.CanBeFrozen)

variable {h : Host} {path : Path}

theorem load_eq_ok_iff {s : RuleSettings} :
    load h path = .ok s ↔
      ∃ text v, h.readText Text.Utf8.decode path = .ok text ∧ Json.read text = .ok v ∧
        Holds v s ∧ s.CanBeFrozen := by
  simp only [← ofJson_wrapped_eq_valid_iff]
  rw [load_eq]
  rcases h.readText Text.Utf8.decode path with (fault | e) | text
  · simp
  · simp
  · rcases hjson : Json.read text with (e | l) | v
    · simp [hjson]
    · simp [hjson]
    · cases hchecked : ofJson (wrapped v) with
      | invalid issues => simp [hjson, hchecked]
      | valid loaded =>
        simp only [hjson, hchecked, mapError_eq_ok, freeze_entries_eq_ok_iff]
        constructor
        · rintro ⟨hroom, rfl⟩
          exact ⟨text, v, rfl, hjson, hchecked, hroom⟩
        · rintro ⟨_, v', ⟨⟩, hjson', hchecked', hroom⟩
          obtain rfl := Except.ok.inj (hjson.symm.trans hjson')
          obtain rfl := Checked.valid.inj (hchecked.symm.trans hchecked')
          exact ⟨hroom, rfl⟩

/-- The failures of loading that the user can mend are those of a bad file. -/
theorem load_eq_setup_iff {f : SetupFailure} :
    (load h path).mapError Failure.ofSettings = .error (.setup f) ↔ BadFile h path f := by
  constructor
  · intro hload
    rw [load_eq] at hload
    rcases hread : h.readText Text.Utf8.decode path with (fault | e) | text
    · have hfile := Host.readText_eq_unreadable_iff.1 hread
      cases hrefusal : fault.isRefusal with
      | true =>
        simp only [hread, hrefusal] at hload
        cases hload
        exact .denied (Host.canBeGiven_of_isRefusal hfile hrefusal) hfile
      | false =>
        simp only [hread, hrefusal] at hload
        cases hload
    · simp only [hread] at hload
      cases hload
    · rcases hjson : Json.read text with (e | l) | v
      · simp only [hread, hjson] at hload
        cases hload
        exact .malformed hread hjson
      · simp only [hread, hjson] at hload
        cases hload
      · cases hchecked : ofJson (wrapped v) with
        | valid s =>
          simp only [hread, hjson, hchecked] at hload
          rcases hfrozen : freeze s.entries with l | s'
          · rw [hfrozen] at hload
            cases hload
          · rw [hfrozen] at hload
            cases hload
        | invalid issues =>
          simp only [hread, hjson, hchecked] at hload
          cases hload
          exact .invalid hread hjson hchecked
  · intro hbad
    rw [load_eq]
    cases hbad with
    | denied hgiven hfile =>
      simp only [Host.readText_eq_unreadable_iff.2 hfile,
        if_pos (Host.isRefusal_of_fileContent hgiven hfile)]
      rfl
    | malformed hread hjson =>
      simp only [hread, hjson]
      rfl
    | invalid hread hjson hissues =>
      simp only [hread, hjson, hissues]
      rfl

/-- Loading ends with settings or with a failure that the user can mend, or there is a flaw that is
not foreseen. -/
theorem ok_or_badFile_or_unforeseen (h : Host) (path : Path) :
    (∃ s, load h path = .ok s) ∨ (∃ f, BadFile h path f) ∨ Unforeseen h path := by
  rcases hread : h.readText Text.Utf8.decode path with (fault | e) | text
  · have hfile := Host.readText_eq_unreadable_iff.1 hread
    by_cases hgiven : path.CanBeGiven
    · exact .inr (.inl ⟨_, .denied hgiven hfile⟩)
    · exact .inr (.inr (.path hgiven))
  · obtain ⟨content, hfile, hdecode⟩ := Host.readText_eq_undecodable_iff.1 hread
    exact .inr (.inr (.bytes hfile ⟨e, hdecode⟩))
  · rcases hjson : Json.read text with (e | l) | v
    · exact .inr (.inl ⟨_, .malformed hread hjson⟩)
    · exact .inr (.inr (.limit hread hjson))
    · cases hchecked : ofJson (wrapped v) with
      | valid s =>
        have hholds : Holds v s := ofJson_wrapped_eq_valid_iff.1 hchecked
        by_cases hroom : s.CanBeFrozen
        · exact .inl ⟨s, load_eq_ok_iff.2 ⟨text, v, hread, hjson, hholds, hroom⟩⟩
        · exact .inr (.inr (.deep hread hjson hholds hroom))
      | invalid issues => exact .inr (.inl ⟨_, .invalid hread hjson hchecked⟩)

/-- A flaw that is not foreseen ends loading with a failure that has no wording of its own. -/
theorem Unforeseen.exists_load_eq_error (hflaw : Unforeseen h path) :
    ∃ fault, load h path = .error fault ∧ ∀ f, Failure.ofSettings fault ≠ .setup f := by
  rw [load_eq]
  cases hflaw with
  | path hgiven =>
    obtain ⟨fault, hfile, hasked⟩ := Host.exists_of_not_canBeGiven h hgiven
    refine ⟨.path fault, ?_, by rintro f ⟨⟩⟩
    simp only [Host.readText_eq_unreadable_iff.2 hfile, hasked]
    rfl
  | bytes hfile hdecode =>
    obtain ⟨e, hdecode⟩ := hdecode
    refine ⟨.undecodable e, ?_, by rintro f ⟨⟩⟩
    simp only [Host.readText_eq_undecodable_iff.2 ⟨_, hfile, hdecode⟩]
  | @limit text l hread hjson =>
    refine ⟨.limit l, ?_, by rintro f ⟨⟩⟩
    simp only [hread, hjson]
  | deep hread hjson hholds hdeep =>
    refine ⟨.limit .depth, ?_, by rintro f ⟨⟩⟩
    simp only [hread, hjson, ofJson_wrapped_eq_valid_iff.2 hholds,
      freeze_entries_of_not_canBeFrozen hdeep, mapError_error]

/-- **What comes of a file of settings.**  Settings are loaded exactly if its text is JSON that
holds them, and there is room to freeze them.  A file that the system denies, text that is no JSON
and JSON that holds no settings make a failure that the user can mend, which says what is wrong with
the file.  One or the other comes of every file, except where a flaw is not foreseen. -/
theorem load_classifies (h : Host) (path : Path) :
    (∀ s, load h path = .ok s ↔
      ∃ text v, h.readText Text.Utf8.decode path = .ok text ∧ Json.read text = .ok v ∧
        Holds v s ∧ s.CanBeFrozen) ∧
    (∀ f, (load h path).mapError Failure.ofSettings = .error (.setup f) ↔ BadFile h path f) ∧
    ((∃ s, load h path = .ok s) ∨ (∃ f, BadFile h path f) ↔ ¬ Unforeseen h path) := by
  refine ⟨fun s => load_eq_ok_iff, fun f => load_eq_setup_iff, ?_⟩
  constructor
  · rintro hforeseen hflaw
    obtain ⟨fault, hload, hnot⟩ := hflaw.exists_load_eq_error
    rcases hforeseen with ⟨s, hok⟩ | ⟨f, hbad⟩
    · cases hload.symm.trans hok
    · have hsetup := load_eq_setup_iff.2 hbad
      rw [hload] at hsetup
      exact hnot f (Except.error.inj hsetup)
  · intro hforeseen
    rcases ok_or_badFile_or_unforeseen h path with hok | hbad | hflaw
    · exact .inl hok
    · exact .inr hbad
    · exact absurd hflaw hforeseen

/-- The one byte 0xFF is no text: its settings are not loaded, and the failure is none that the user
can mend. -/
theorem load_undecodable :
    let h : Host := { tree := ⟨[([Text.Utf8.encodeString "rules"], .file [0xFF])]⟩ }
    let loaded := (load h (.ofText "rules")).mapError Failure.ofSettings
    ¬ ((∃ s, loaded = .ok s) ∨ ∃ f, loaded = .error (.setup f)) := by
  intro h loaded
  have hfile : h.fileContent (.ofText "rules") = .ok [0xFF] := by rfl
  have hdecode : Fails (Text.Utf8.decode [0xFF]) := by decide
  obtain ⟨fault, hload, hnot⟩ := (Unforeseen.bytes hfile hdecode).exists_load_eq_error
  rw [show loaded = .error (Failure.ofSettings fault) by simp only [loaded, hload, mapError_error]]
  rintro (⟨s, hok⟩ | ⟨f, hsetup⟩)
  · cases hok
  · exact hnot f (Except.error.inj hsetup)

end RuleSettings

end ProjectAudit
