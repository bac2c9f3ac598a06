import ProjectAudit.Proofs.Evaluation.Independence
import ProjectAudit.Proofs.Evaluation.Turns
import ProjectAudit.Proofs.Rules.OwnSettings
import ProjectAudit.Proofs.Settings.Entries

/-!
# Each rule and its own entry

The settings of all rules are loaded at once and handed to all of them.  Still an entry concerns one
rule only: no other one sees it, so it may hold anything, and if it is of no use to its rule, that
rule alone is undetermined.

For one rule this is what it reads in front of everything else.  For a run there is more to it.  A
rule whose entry is of no use does not get to its calls, so the replies that it would have used up
are still there when the rules after it are asked.  But these replies are to subcommands that no
other rule calls.  So the invariant of the run is that the scripts agree outside of the subcommands
of the broken rule: it is kept by its turns, which do nothing to the rest, and by the other turns,
which are the same on both sides.

* `BuiltIn.evaluate_congr`: a rule sees its own entry only.
* `BuiltIn.evaluate_of_rejects`: a rule whose entry is of no use ends at once.
* `turnsOf_sameBut`: all turns of a run but those of the broken rule are the same.
* `evaluateRules_ownEntries`: what entries are to rules, and to a run.
-/

namespace ProjectAudit

open Run Settings

variable {c : Context} {s s' : RuleSettings}

/-! ## One rule -/

namespace BuiltIn

variable {rule : BuiltIn}

/-- **A rule sees its own entry only.** -/
theorem evaluate_congr (h : RuleSettings.entry? s rule.id = RuleSettings.entry? s' rule.id) :
    rule.evaluate (c.withSettings s) = rule.evaluate (c.withSettings s') := by
  obtain ⟨α, read, absent, hreads, -⟩ := rule.exists_readsBy
  refine hreads.evaluate_congr ?_
  rw [RuleSettings.get, RuleSettings.get, h]

/-- The entry of a rule does not pass the check of its kind of settings. -/
def Rejects (rule : BuiltIn) (s : RuleSettings) : Prop :=
  ∃ kind fields issues, rule.settingsKind? = some kind ∧
    RuleSettings.entry? s rule.id = some fields ∧ kind.complete (.obj fields) = .invalid issues

/-- **A rule whose entry is of no use ends at once**, and has done nothing. -/
theorem evaluate_of_rejects (h : rule.Rejects s) (c : Context) :
    ∃ issues, rule.evaluate (c.withSettings s) = Run.fail (.settings issues) := by
  obtain ⟨kind, fields, issues, hkind, hentry, hinvalid⟩ := h
  obtain ⟨α, read, absent, ⟨judge, -, hevaluate⟩, -, -, hchecks⟩ := rule.exists_readsBy
  obtain ⟨write, hcomplete⟩ := hchecks kind hkind
  rw [hcomplete, Checked.map_eq_invalid] at hinvalid
  have hsettings : (c.withSettings s).settingsOf rule.id read absent =
      Run.fail (.settings issues) := by
    show Run.ofExcept ((s.get rule.id read absent).toExcept.mapError RuleFault.settings) = _
    rw [RuleSettings.get, hentry]
    dsimp only
    rw [hinvalid]
    rfl
  refine ⟨issues, ?_⟩
  rw [hevaluate, hsettings]
  rfl

end BuiltIn

/-- Rules of the user's own see no entries. -/
theorem Rule.evaluate_congr {rule : Rule}
    (h : ∀ b : BuiltIn, rule = .builtIn b →
      RuleSettings.entry? s b.id = RuleSettings.entry? s' b.id) :
    rule.evaluate (c.withSettings s) = rule.evaluate (c.withSettings s') := by
  cases rule with
  | builtIn rule => rw [evaluate, evaluate, rule.evaluate_congr (h rule rfl)]
  | custom rule =>
    have hnone (settings : RuleSettings) :
        (Rule.custom rule).evaluate (c.withSettings settings) = (Rule.custom rule).evaluate c :=
      evaluate_custom_withKnowledge c c.metadataResult settings rule
    rw [hnone, hnone]

/-! ## A run with a broken entry -/

/-- Two scripts hold the same replies, but for those to the given subcommands. -/
def Cargo.Script.AgreeOutside (own : List Text) (s t : Cargo.Script) : Prop :=
  ∀ sub, sub ∉ own → s.pending sub = t.pending sub

/-- A rule does the same from scripts that agree outside of what another rule calls, and they still
agree when it is done. -/
theorem Rule.evaluate_of_agreeOutside {rule : Rule} {own : List Text}
    (hapart : List.Disjoint rule.subcommands own) {t t' : Cargo.Script}
    (hagree : t.AgreeOutside own t') :
    (rule.evaluate c t').value = (rule.evaluate c t).value ∧
      (rule.evaluate c t').events = (rule.evaluate c t).events ∧
      (rule.evaluate c t).script.AgreeOutside own (rule.evaluate c t').script := by
  have hrun := (rule.stepwise c).within c.verbose
  rw [Context.withVerbose_self] at hrun
  have hown : t.AgreeOn rule.subcommands t' := fun sub hsub => hagree sub (hapart hsub)
  refine ⟨(hrun.value_eq hown).symm, (hrun.events_eq hown).symm, fun sub hsub => ?_⟩
  by_cases hcalled : sub ∈ rule.subcommands
  · exact hrun.agreeOn hown sub hcalled
  · rw [hrun.pending_eq t hcalled, hrun.pending_eq t' hcalled, hagree sub hsub]

/-- Two turns of one rule.  If it is the broken one, the second turn is undetermined and has left
nothing, and if it is another one, both turns are the same. -/
structure Turn.SameBut (broken : BuiltIn) (t t' : Turn) : Prop where
  rule : t'.rule = t.rule
  outcome_broken : t.rule = .builtIn broken → t'.outcome = .undetermined
  events_broken : t.rule = .builtIn broken → t'.ending.events = []
  value : t.rule ≠ .builtIn broken → t'.ending.value = t.ending.value
  events : t.rule ≠ .builtIn broken → t'.ending.events = t.ending.events

/-- **All turns but those of the broken rule are the same.** -/
theorem turnsOf_sameBut {broken : BuiltIn} (hbroken : broken.Rejects s')
    (hothers : ∀ other : BuiltIn, other ≠ broken →
      RuleSettings.entry? s other.id = RuleSettings.entry? s' other.id)
    (rules : List Rule) {t t' : Cargo.Script} (hagree : t.AgreeOutside broken.subcommands t') :
    List.Forall₂ (Turn.SameBut broken) (turnsOf (c.withSettings s) rules t)
      (turnsOf (c.withSettings s') rules t') := by
  induction rules generalizing t t' with
  | nil => exact .nil
  | cons rule rules ih =>
    rw [turnsOf, turnsOf]
    by_cases hrule : rule = .builtIn broken
    · subst hrule
      obtain ⟨issues, hfail⟩ := BuiltIn.evaluate_of_rejects hbroken c
      have hturn : (Rule.builtIn broken).evaluate (c.withSettings s') t' =
          ⟨.error (.settings issues), t', []⟩ := by
        rw [Rule.evaluate, hfail]
        rfl
      rw [hturn]
      refine .cons ⟨rfl, fun _ => rfl, fun _ => rfl, fun h => absurd rfl h, fun h => absurd rfl h⟩
        (ih fun sub hsub => ?_)
      exact (Rule.pending_evaluate hsub).trans (hagree sub hsub)
    · have hsame : rule.evaluate (c.withSettings s) = rule.evaluate (c.withSettings s') := by
        refine Rule.evaluate_congr fun b hb => hothers b ?_
        rintro rfl
        exact hrule hb
      have hapart : List.Disjoint rule.subcommands broken.subcommands := by
        cases rule with
        | custom rule => exact List.disjoint_nil_left _
        | builtIn rule => exact BuiltIn.disjoint_subcommands fun h => hrule (by rw [h])
      obtain ⟨hvalue, hevents, hscript⟩ :=
        Rule.evaluate_of_agreeOutside (c := c.withSettings s') hapart hagree
      rw [hsame]
      exact .cons ⟨rfl, fun h => absurd h hrule, fun h => absurd h hrule, fun _ => hvalue,
        fun _ => hevents⟩ (ih hscript)

/-- **Each rule and its own entry.**  The entry of a rule is what is written under its id.  A rule
with the same entry, or with none, in two settings does the same with both, whatever else they hold,
and so do rules each of which has the same entry.  If the entry of one rule is of no use, then that
rule is undetermined in all its turns and leaves nothing, and all other turns of a run are the same:
their outcomes, notes, processes and log records. -/
theorem evaluateRules_ownEntries :
    (∀ (v v' : Json) (s s' : RuleSettings) (id : Text),
      RuleSettings.ofJson (RuleSettings.wrapped v) = .valid s →
      RuleSettings.ofJson (RuleSettings.wrapped v') = .valid s' →
      RuleSettings.writtenUnder v id = RuleSettings.writtenUnder v' id →
        RuleSettings.entry? s id = RuleSettings.entry? s' id) ∧
    (∀ (c : Context) (s s' : RuleSettings),
      (∀ rule : BuiltIn, RuleSettings.entry? s rule.id = RuleSettings.entry? s' rule.id →
        rule.evaluate (c.withSettings s) = rule.evaluate (c.withSettings s')) ∧
      ∀ rules : List Rule, (∀ rule : BuiltIn, .builtIn rule ∈ rules →
          RuleSettings.entry? s rule.id = RuleSettings.entry? s' rule.id) →
        (evaluateRules (c.withSettings s) rules : Run Failure (List Finding)) =
          evaluateRules (c.withSettings s') rules) ∧
    ∀ (broken : BuiltIn) (c : Context) (s s' : RuleSettings) (rules : List Rule)
      (script : Cargo.Script), broken.Rejects s' →
      (∀ other : BuiltIn, other ≠ broken →
        RuleSettings.entry? s other.id = RuleSettings.entry? s' other.id) →
      let turns := fun settings => turnsOf (c.withSettings settings) rules script
      let run := fun settings =>
        (evaluateRules (c.withSettings settings) rules script : Ending Failure (List Finding))
      (∀ settings, (run settings).value =
        .ok ((turns settings).map fun t => ⟨t.rule.description, t.outcome⟩)) ∧
      (turns s).map Turn.rule = rules ∧
      List.Forall₂ (Turn.SameBut broken) (turns s) (turns s') := by
  refine ⟨fun v v' s s' id hload hload' => RuleSettings.entry?_congr hload hload',
    fun c s s' => ⟨fun rule => rule.evaluate_congr, fun rules hrules => ?_⟩, ?_⟩
  · refine evaluateRules_congr fun rule hmem => Rule.evaluate_congr fun b hb => hrules b ?_
    rwa [← hb]
  · intro broken c s s' rules script hbroken hothers turns run
    exact ⟨fun settings => (evaluateRules_turns _ rules script).1, map_rule_turnsOf _ rules script,
      turnsOf_sameBut hbroken hothers rules fun _ _ => rfl⟩

/-- The tests asked for twice, with an entry that is of no use, and an entry that belongs to no
rule. -/
theorem evaluateRules_ownEntries_null :
    let license : Text × Json :=
      (BuiltIn.license.id, .obj [("require_nonempty", .bool false)])
    let v : Json := .obj [license]
    let v' : Json := .obj [("rules", .obj [("NO-SUCH-RULE", .obj []),
      (BuiltIn.passesTests.id, .obj [("min_passed", .null)]), license])]
    let c : Context := {
      manifest := .ofText "/p/Cargo.toml"
      metadataResult := { status := .invalid } }
    let rules : List Rule :=
      [.builtIn .passesTests, .builtIn .license, .builtIn .passesTests, .builtIn .buildsCleanly]
    let script : Cargo.Script :=
      [("build", [.finished { exitCode := 101 }]), ("test", [.notStarted "busy"])]
    ∃ s s' : RuleSettings, RuleSettings.ofJson (RuleSettings.wrapped v) = .valid s ∧
      RuleSettings.ofJson (RuleSettings.wrapped v') = .valid s' ∧
      BuiltIn.passesTests.Rejects s' ∧
      BuiltIn.license.evaluate (c.withSettings s) = BuiltIn.license.evaluate (c.withSettings s') ∧
      List.Forall₂ (Turn.SameBut .passesTests) (turnsOf (c.withSettings s) rules script)
        (turnsOf (c.withSettings s') rules script) := by
  intro license v v' c rules script
  obtain ⟨hloaded, hrule, hrun⟩ := evaluateRules_ownEntries
  let s : RuleSettings := ⟨[(BuiltIn.license.id, [("require_nonempty", .bool false)])]⟩
  let s' : RuleSettings := ⟨[("NO-SUCH-RULE", []),
    (BuiltIn.passesTests.id, [("min_passed", .null)]),
    (BuiltIn.license.id, [("require_nonempty", .bool false)])]⟩
  have hload : RuleSettings.ofJson (RuleSettings.wrapped v) = .valid s := by rfl
  have hload' : RuleSettings.ofJson (RuleSettings.wrapped v') = .valid s' := by rfl
  have hrejects : BuiltIn.passesTests.Rejects s' := ⟨.tests, _, _, rfl, rfl, rfl⟩
  have hlicense := hloaded v v' s s' BuiltIn.license.id hload hload' (by rfl)
  have hothers : ∀ other : BuiltIn, other ≠ .passesTests →
      RuleSettings.entry? s other.id = RuleSettings.entry? s' other.id := by
    intro other hother
    have hstray : Text.ofString "NO-SUCH-RULE" ≠ Text.ofString other.id := by
      rw [Ne, Text.ofString_inj]
      cases other <;> simp [BuiltIn.id]
    have htests : Text.ofString BuiltIn.passesTests.id ≠ Text.ofString other.id := by
      rw [Ne, Text.ofString_inj]
      cases other <;> simp [BuiltIn.id] at hother ⊢
    rw [RuleSettings.entry?_cons_of_ne hstray, RuleSettings.entry?_cons_of_ne htests]
  exact ⟨s, s', hload, hload', hrejects, (hrule c s s').1 .license hlicense,
    (hrun .passesTests c s s' rules script hrejects hothers).2.2⟩

end ProjectAudit
