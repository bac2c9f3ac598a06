import ProjectAudit.Proofs.Rules.Knowledge
import ProjectAudit.Proofs.Run.Laws
import ProjectAudit.Proofs.Settings.Completion
import ProjectAudit.Rules.BuiltIn
import Mathlib.Data.List.Basic

/-!
# The settings of rules that are not configured

A rule without an entry in the settings uses settings of its own.  An entry that mentions some
fields should then change these and no others, and an empty entry should change nothing.

There are two places that the value of a field can come from where none is mentioned: the rule,
which names the settings to use when it has no entry, and the reader of its kind of settings, which
knows a default for each field.  A rule keeps its own settings as far as the two agree.  For nine of
the ten rules they do.  The rule about formatter settings accepts an empty file as long as it has no
entry, but its kind of settings, which is that of three other rules, asks for files with something
in them.  So an entry that leaves out `require_nonempty` turns it on.

All that a rule takes from the settings is what it reads of its own entry, once, in front of
everything else it does (`BuiltIn.ReadsBy`).  That is why it is enough to look at the readers.

* `BuiltIn.ReadsBy.evaluate_congr`: rules whose entries read alike do alike.
* `BuiltIn.evaluate_withEntry`: which entries leave the fields they do not mention as they were.
* `BuiltIn.evaluate_withEntry_formatter`: an empty entry that changes an outcome.
-/

namespace ProjectAudit

open Run Json Settings

/-! ## Entries -/

namespace RuleSettings

/-- Settings with one entry more. -/
def withEntry (s : RuleSettings) (id : Text) (fields : List (Text × Json)) : RuleSettings :=
  ofList (s.entries ++ [(id, fields)])

variable {s : RuleSettings} {id : Text} (hnone : s.entry? id = none)
include hnone

/-- An entry that there was none of is found. -/
theorem entry?_withEntry (fields : List (Text × Json)) :
    RuleSettings.entry? (s.withEntry id fields) id = some fields := by
  rw [← find?_entries, Option.map_eq_none_iff] at hnone
  simp [withEntry, ← find?_entries, List.find?_append, hnone]

variable {α : Type} (read : Json → Checked α) (absent : α)

theorem get_withEntry (fields : List (Text × Json)) :
    (s.withEntry id fields).get id read absent = read (.obj fields) := by
  rw [get, entry?_withEntry hnone]

theorem get_of_entry?_eq_none : s.get id read absent = .valid absent := by
  rw [get, hnone]

end RuleSettings

namespace Context

/-- The same context with other settings. -/
def withSettings (c : Context) (settings : RuleSettings) : Context :=
  { c with settings }

/-- A context with one entry more in its settings. -/
def withEntry (c : Context) (id : Text) (fields : List (Text × Json)) : Context :=
  c.withSettings (c.settings.withEntry id fields)

end Context

/-! ## What rules take from the settings -/

namespace BuiltIn

variable {α : Type} {read : Json → Checked α} {absent : α} {c : Context} {rule : BuiltIn}

/-- A rule reads its entry, and takes nothing else from the settings. -/
def ReadsBy (rule : BuiltIn) (read : Json → Checked α) (absent : α) : Prop :=
  ∃ judge : α → Context → Run RuleFault Outcome,
    (∀ s c settings, judge s (c.withSettings settings) = judge s c) ∧
      ∀ c, rule.evaluate c = c.settingsOf rule.id read absent >>= fun s => judge s c

/-- **Rules whose entries read alike do alike.** -/
theorem ReadsBy.evaluate_congr (h : rule.ReadsBy read absent) {s s' : RuleSettings}
    (hread : s.get rule.id read absent = s'.get rule.id read absent) :
    rule.evaluate (c.withSettings s) = rule.evaluate (c.withSettings s') := by
  obtain ⟨judge, hjudge, hevaluate⟩ := h
  have hsettings : (c.withSettings s).settingsOf rule.id read absent =
      (c.withSettings s').settingsOf rule.id read absent :=
    congrArg (fun x : Checked α => Run.ofExcept (x.toExcept.mapError RuleFault.settings)) hread
  rw [hevaluate, hevaluate, hsettings]
  simp only [hjudge]

variable (h : rule.ReadsBy read absent) (hnone : c.settings.entry? rule.id = none)
include h hnone

/-- An entry that is read as what a rule uses without one changes nothing. -/
theorem ReadsBy.evaluate_own {fields : List (Text × Json)}
    (hread : read (.obj fields) = .valid absent) :
    rule.evaluate (c.withEntry rule.id fields) = rule.evaluate c := by
  refine h.evaluate_congr ?_
  rw [RuleSettings.get_withEntry hnone, hread, RuleSettings.get_of_entry?_eq_none hnone]

/-- Two entries that are read alike are of the same use to a rule. -/
theorem ReadsBy.evaluate_entry {fields fields' : List (Text × Json)}
    (hread : read (.obj fields) = read (.obj fields')) :
    rule.evaluate (c.withEntry rule.id fields) = rule.evaluate (c.withEntry rule.id fields') := by
  refine h.evaluate_congr ?_
  rw [RuleSettings.get_withEntry hnone, RuleSettings.get_withEntry hnone, hread]

end BuiltIn

/-! ## One lemma for each rule -/

namespace Rules

variable (c : Context) (settings : RuleSettings)

theorem build_withSettings : build (c.withSettings settings) = build c :=
  build_withKnowledge c c.metadataResult settings

theorem cleanProject_withSettings :
    cleanProject (c.withSettings settings) = cleanProject c := by
  have hclean (names : List Text) :
      cleanPackages (c.withSettings settings) names = cleanPackages c names :=
    cleanPackages_withKnowledge c c.metadataResult settings names
  simp only [cleanProject, hclean]
  rfl

end Rules

namespace BuiltIn

theorem readsBy_hasFile {rule : BuiltIn} {pattern : Pattern} {absent : FilePresence}
    (hevaluate : ∀ c, rule.evaluate c = Rules.hasFile rule.id pattern absent c) :
    rule.ReadsBy FilePresence.ofJson absent :=
  ⟨fun s c => Rules.searchProject c pattern s, fun _ _ _ => rfl, hevaluate⟩

theorem readsBy_readme : readme.ReadsBy FilePresence.ofJson {} := by
  refine ⟨fun s c => do
    let outcome ← Rules.searchProject c Rules.readme s
    if outcome = .failure then
      c.note ("No README file found in " ++ c.projectDirectory.text)
    return outcome, fun _ _ _ => rfl, fun c => ?_⟩
  rw [evaluate, Rules.hasReadme, Rules.hasFile, Run.bind_assoc]

theorem readsBy_continuousIntegration :
    continuousIntegration.ReadsBy ContinuousIntegration.ofJson {} :=
  ⟨_, fun _ _ _ => rfl, fun _ => rfl⟩

theorem readsBy_buildsCleanly : buildsCleanly.ReadsBy Build.ofJson {} := by
  refine ⟨_, fun s c settings => ?_, fun _ => rfl⟩
  simp only [Rules.cleanProject_withSettings, Rules.build_withSettings]

theorem readsBy_passesTests : passesTests.ReadsBy Tests.ofJson {} :=
  ⟨_, fun _ _ _ => rfl, fun _ => rfl⟩

theorem readsBy_propertyTesting : propertyTesting.ReadsBy PropertyTesting.ofJson {} :=
  ⟨_, fun _ _ _ => rfl, fun _ => rfl⟩

theorem readsBy_sourceControl : sourceControl.ReadsBy SourceControl.ofJson {} :=
  ⟨_, fun _ _ _ => rfl, fun _ => rfl⟩

/-- The rule about metadata has no settings, so whatever its entry is, it reads nothing from it. -/
theorem readsBy_metadataReadable : metadataReadable.ReadsBy (fun _ => .valid ()) () := by
  refine ⟨fun _ c => Rules.metadataReadable c, fun _ _ _ => rfl, fun c => ?_⟩
  rw [Context.settingsOf, RuleSettings.get]
  cases c.settings.entry? metadataReadable.id <;> rfl

/-! ## Own settings -/

/-- The defaults of the settings of a rule, with all fields. -/
def defaultFields (rule : BuiltIn) : List (Text × Json) :=
  (rule.settingsKind?.map Kind.defaultFields).getD []

/-- The settings that a rule uses when it has no entry, with all fields. -/
def ownFields : BuiltIn → List (Text × Json)
  | .formatter => [("require_nonempty", .bool false), ("search_workspace_root", .bool true)]
  | rule => rule.defaultFields

theorem ownFields_eq_defaultFields {rule : BuiltIn} (hrule : rule ≠ .formatter) :
    rule.ownFields = rule.defaultFields := by
  cases rule with
  | formatter => exact absurd rfl hrule
  | _ => rfl

/-- Once it is said whether empty files count, the settings of the rule about formatter settings are
the defaults. -/
theorem completeWith_formatter {fields : List (Text × Json)}
    (hfields : Mentions "require_nonempty" fields) :
    completeWith formatter.ownFields fields = completeWith formatter.defaultFields fields := by
  obtain ⟨v, hv⟩ := Option.isSome_iff_exists.1 hfields
  simp [completeWith, ownFields, defaultFields, settingsKind?, Kind.defaultFields, Kind.defaults,
    FilePresence.toJson, List.filter_cons, hv]

/-- How a rule reads its settings: its own ones are what it uses without an entry, the defaults are
what its reader takes where a field is not mentioned, and its kind of settings is checked by the
same reader. -/
theorem exists_readsBy (rule : BuiltIn) :
    ∃ (α : Type) (read : Json → Checked α) (absent : α), rule.ReadsBy read absent ∧
      read (.obj rule.ownFields) = .valid absent ∧
      (Completes rule.defaultFields fun fields => read (.obj fields)) ∧
      ∀ kind, rule.settingsKind? = some kind →
        ∃ write : α → Json, ∀ v, kind.complete v = (read v).map write := by
  have hkind {α : Type} {read : Json → Checked α} {write : α → Json} {found : Kind}
      (hcomplete : ∀ v, found.complete v = (read v).map write) :
      ∀ kind, some found = some kind →
        ∃ write : α → Json, ∀ v, kind.complete v = (read v).map write := by
    rintro _ ⟨⟩
    exact ⟨write, hcomplete⟩
  cases rule with
  | metadataReadable => exact ⟨_, _, _, readsBy_metadataReadable, rfl, completes_const _, nofun⟩
  | contributing | license | formatter =>
    exact ⟨_, _, _, readsBy_hasFile fun _ => rfl, rfl, FilePresence.completes, hkind fun _ => rfl⟩
  | readme => exact ⟨_, _, _, readsBy_readme, rfl, FilePresence.completes, hkind fun _ => rfl⟩
  | continuousIntegration =>
    exact ⟨_, _, _, readsBy_continuousIntegration, rfl, ContinuousIntegration.completes,
      hkind fun _ => rfl⟩
  | buildsCleanly =>
    exact ⟨_, _, _, readsBy_buildsCleanly, rfl, Build.completes, hkind fun _ => rfl⟩
  | passesTests => exact ⟨_, _, _, readsBy_passesTests, rfl, Tests.completes, hkind fun _ => rfl⟩
  | propertyTesting =>
    exact ⟨_, _, _, readsBy_propertyTesting, rfl, PropertyTesting.completes, hkind fun _ => rfl⟩
  | sourceControl =>
    exact ⟨_, _, _, readsBy_sourceControl, rfl, SourceControl.completes, hkind fun _ => rfl⟩

section

variable {c : Context} {rule : BuiltIn} (hnone : c.settings.entry? rule.id = none)
include hnone

/-- To write out the settings that a rule uses without an entry changes nothing. -/
theorem evaluate_ownFields :
    rule.evaluate (c.withEntry rule.id rule.ownFields) = rule.evaluate c := by
  obtain ⟨α, read, absent, hreads, hown, -⟩ := rule.exists_readsBy
  exact hreads.evaluate_own hnone hown

/-- To write out the defaults of what an entry does not mention changes nothing. -/
theorem evaluate_completeWith (fields : List (Text × Json)) :
    rule.evaluate (c.withEntry rule.id fields) =
      rule.evaluate (c.withEntry rule.id (completeWith rule.defaultFields fields)) := by
  obtain ⟨α, read, absent, hreads, -, hcompletes, -⟩ := rule.exists_readsBy
  exact hreads.evaluate_entry hnone (hcompletes fields).symm

/-- **What an entry leaves as it was.**  A rule without an entry does what it does with its own
settings written out, and an entry stands for the one in which the defaults of the other fields are
written out behind it.  But for whether empty files count as formatter settings, these are the
rule's own settings, so that fields which are not mentioned stay as they are without an entry, and
an empty entry changes nothing.  In each equation it is the whole run that is the same, whatever the
tool replies: its end, its processes and its notes. -/
theorem evaluate_withEntry :
    rule.evaluate (c.withEntry rule.id rule.ownFields) = rule.evaluate c ∧
    (∀ fields, rule.evaluate (c.withEntry rule.id fields) =
      rule.evaluate (c.withEntry rule.id (completeWith rule.defaultFields fields))) ∧
    (∀ fields, (rule = .formatter → Mentions "require_nonempty" fields) →
      rule.evaluate (c.withEntry rule.id fields) =
        rule.evaluate (c.withEntry rule.id (completeWith rule.ownFields fields))) ∧
    (rule ≠ .formatter → rule.evaluate (c.withEntry rule.id []) = rule.evaluate c) := by
  have hkeeps (fields : List (Text × Json))
      (hfields : rule = .formatter → Mentions "require_nonempty" fields) :
      rule.evaluate (c.withEntry rule.id fields) =
        rule.evaluate (c.withEntry rule.id (completeWith rule.ownFields fields)) := by
    rw [evaluate_completeWith hnone fields]
    by_cases hrule : rule = .formatter
    · subst hrule
      rw [completeWith_formatter (hfields rfl)]
    · rw [ownFields_eq_defaultFields hrule]
  refine ⟨evaluate_ownFields hnone, evaluate_completeWith hnone, hkeeps, fun hrule => ?_⟩
  rw [hkeeps [] fun hformatter => absurd hformatter hrule, completeWith_nil]
  exact evaluate_ownFields hnone

end

/-- An entry that says that empty files count, and an empty entry of another rule. -/
theorem evaluate_withEntry_off :
    let c : Context := {
      manifest := .ofText "/p/Cargo.toml"
      metadataResult := { status := .invalid } }
    let fields : List (Text × Json) := [("require_nonempty", .str "off")]
    let more : List (Text × Json) := [("search_workspace_root", .bool true)]
    c.settings.entry? formatter.id = none ∧ c.settings.entry? license.id = none ∧
      Mentions "require_nonempty" fields ∧
      formatter.evaluate (c.withEntry formatter.id fields) =
        formatter.evaluate (c.withEntry formatter.id (fields ++ more)) ∧
      license.evaluate (c.withEntry license.id []) = license.evaluate c := by
  intro c fields more
  have hmentions : Mentions "require_nonempty" fields := by decide
  have hformatter : c.settings.entry? formatter.id = none := rfl
  have hlicense : c.settings.entry? license.id = none := rfl
  obtain ⟨-, -, hkeeps, -⟩ := evaluate_withEntry hformatter
  obtain ⟨-, -, -, hempty⟩ := evaluate_withEntry hlicense
  exact ⟨hformatter, hlicense, hmentions, hkeeps fields fun _ => hmentions, hempty (by decide)⟩

/-- An empty file of formatter settings is accepted as long as the rule has no entry.  With an empty
entry it is not. -/
theorem evaluate_withEntry_formatter :
    let c : Context := {
      manifest := .ofText "/p/Cargo.toml"
      metadataResult := { status := .invalid }
      host := { tree := ⟨[([Text.Utf8.encodeString "p"], .directory),
        ([Text.Utf8.encodeString "rustfmt.toml", Text.Utf8.encodeString "p"], .file [])]⟩ } }
    c.settings.entry? formatter.id = none ∧
      (formatter.evaluate c []).value = .ok .success ∧
      (formatter.evaluate (c.withEntry formatter.id []) []).value = .ok .failure := by
  intro c
  exact ⟨rfl, by decide +kernel, by decide +kernel⟩

end BuiltIn

end ProjectAudit
