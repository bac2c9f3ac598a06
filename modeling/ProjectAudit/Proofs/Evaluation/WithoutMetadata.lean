import ProjectAudit.Audit.Failure
import ProjectAudit.Proofs.Evaluation.Calls
import ProjectAudit.Proofs.Rules.Knowledge

/-!
# Rules without metadata

The query for metadata can fail in several ways, and a failed query may hand over a value all the
same.  Rules are to make nothing of any of this: a run that has no metadata should be the run of a
project whose metadata says nothing, that is, which names no package and no workspace root.

Rules look at metadata in two places only, at the packages and at the directory of the workspace,
and for a failed query both are as empty as they are for metadata that says nothing.  One rule is
left out, since the query itself is what it is about.

So there is one run to be described.  It has no package to clean and none to look for dependencies
in, and all that is searched for a file is the project directory.

* `MetadataResult.TellsNothing`: the results of a query that are of no use to rules.
* `Rule.evaluate_withMetadataResult`: what rules see of metadata.
* `BuiltIn.evaluate_of_fileSearch`: where a rule about a file looks for it.
* `evaluateRules_withoutMetadata`: all results of no use lead to one run, and what it is.
-/

namespace ProjectAudit

open Run

/-- A result that is of no use: the query failed, whatever it may have handed over, or the metadata
names neither a workspace root nor a package. -/
def MetadataResult.TellsNothing (r : MetadataResult) : Prop :=
  r.status = .ok → ∀ m, r.metadata = some m → m.workspaceRoot = [] ∧ m.packages = []

/-- The same context with another result of the query. -/
def Context.withMetadataResult (c : Context) (result : MetadataResult) : Context :=
  c.withKnowledge result c.settings

/-! ## What rules see of metadata -/

section

variable {c : Context} {result : MetadataResult}

namespace Rules

variable (hworkspace : (c.withMetadataResult result).workspaceDirectory? = c.workspaceDirectory?)

include hworkspace in
theorem hasFile_withMetadataResult (id : Text) (pattern : Pattern)
    (absent : Settings.FilePresence) :
    hasFile id pattern absent (c.withMetadataResult result) = hasFile id pattern absent c := by
  have hsearch (s : Settings.FilePresence) :
      searchProject (c.withMetadataResult result) pattern s = searchProject c pattern s := by
    simp only [searchProject, hworkspace]
    rfl
  simp only [hasFile, hsearch]
  rfl

include hworkspace in
theorem hasContinuousIntegration_withMetadataResult (id : Text) :
    hasContinuousIntegration id (c.withMetadataResult result) = hasContinuousIntegration id c := by
  have hdirectories (s : Settings.ContinuousIntegration) :
      searchDirectories (c.withMetadataResult result) s = searchDirectories c s := by
    simp only [searchDirectories, hworkspace]
    rfl
  simp only [hasContinuousIntegration, hdirectories]
  rfl

variable (hpackages : (c.withMetadataResult result).packages = c.packages)
include hpackages

theorem buildsCleanly_withMetadataResult (id : Text) :
    buildsCleanly id (c.withMetadataResult result) = buildsCleanly id c := by
  have hpackage (names : List Text) :
      cleanPackages (c.withMetadataResult result) names = cleanPackages c names :=
    cleanPackages_withKnowledge c result c.settings names
  have hclean : cleanProject (c.withMetadataResult result) = cleanProject c := by
    simp only [cleanProject, hpackages, hpackage]
    rfl
  have hbuild : build (c.withMetadataResult result) = build c :=
    build_withKnowledge c result c.settings
  simp only [buildsCleanly, hclean, hbuild]
  rfl

theorem usesPropertyTesting_withMetadataResult (id : Text) :
    usesPropertyTesting id (c.withMetadataResult result) = usesPropertyTesting id c := by
  simp only [usesPropertyTesting, hpackages]
  rfl

end Rules

/-- **What rules see of metadata**: the packages, and the directory of the workspace. -/
theorem Rule.evaluate_withMetadataResult
    (hpackages : (c.withMetadataResult result).packages = c.packages)
    (hworkspace : (c.withMetadataResult result).workspaceDirectory? = c.workspaceDirectory?)
    {rule : Rule} (hrule : rule ≠ .builtIn .metadataReadable) :
    rule.evaluate (c.withMetadataResult result) = rule.evaluate c := by
  cases rule with
  | custom rule => exact evaluate_custom_withKnowledge c result c.settings rule
  | builtIn rule =>
    have hbuiltIn : rule.evaluate (c.withMetadataResult result) = rule.evaluate c := by
      cases rule with
      | metadataReadable => exact absurd rfl hrule
      | contributing | license | formatter =>
        exact Rules.hasFile_withMetadataResult hworkspace _ _ _
      | readme =>
        simp only [BuiltIn.evaluate, Rules.hasReadme, Rules.hasFile_withMetadataResult hworkspace]
        rfl
      | continuousIntegration =>
        exact Rules.hasContinuousIntegration_withMetadataResult hworkspace _
      | buildsCleanly => exact Rules.buildsCleanly_withMetadataResult hpackages _
      | propertyTesting => exact Rules.usesPropertyTesting_withMetadataResult hpackages _
      | passesTests | sourceControl => rfl
    rw [evaluate, evaluate, hbuiltIn]

end

/-! ## Nothing to see -/

section

variable {c : Context} (hnothing : c.metadataResult.TellsNothing)
include hnothing

namespace Context

theorem packages_of_tellsNothing : c.packages = [] := by
  rw [packages, metadata?, MetadataResult.usable?]
  by_cases hok : c.metadataResult.status = .ok
  · rw [if_pos hok]
    cases hm : c.metadataResult.metadata with
    | none => rfl
    | some m => exact (hnothing hok m hm).2
  · rw [if_neg hok]

theorem workspaceDirectory?_of_tellsNothing : c.workspaceDirectory? = none := by
  rw [workspaceDirectory?, metadata?, MetadataResult.usable?]
  by_cases hok : c.metadataResult.status = .ok
  · rw [if_pos hok]
    cases hm : c.metadataResult.metadata with
    | none => rfl
    | some m =>
      dsimp only
      rw [(hnothing hok m hm).1]
      rfl
  · rw [if_neg hok]

end Context

namespace Rules

/-- The project directory is all that is searched. -/
theorem searchProject_of_tellsNothing (pattern : Pattern) (s : Settings.FilePresence) :
    searchProject c pattern s =
      Context.ask (c.host.scan pattern.accepts s.requireNonempty c.projectDirectory) := by
  have hworkspace := c.workspaceDirectory?_of_tellsNothing hnothing
  simp only [searchProject, hworkspace, ite_self, Run.bind_pure]

theorem cleanProject_of_tellsNothing :
    cleanProject c = (do
      c.note "No metadata to discover which packages to clean."
      return none) := by
  simp only [cleanProject, c.packages_of_tellsNothing hnothing, List.isEmpty_nil, if_true]

/-- The build is all that is called. -/
theorem callsOnly_buildsCleanly_of_tellsNothing (id : Text) :
    CallsOnly ["build"] (buildsCleanly id c) := by
  have hbuild : CallsOnly ["build"] (build c) :=
    (stepwise_build c (List.mem_singleton.2 rfl)).callsOnly c.verbose
  refine (leaves_ofExcept _).bind fun s => ?_
  rw [cleanProject_of_tellsNothing hnothing]
  split
  · refine Leaves.bind ?_ fun outcome => ?_
    · exact (leaves_note c _ fun _ => Event.callsOnly_note).bind fun _ => leaves_pure _
    · cases outcome with
      | some outcome => exact leaves_pure _
      | none => exact hbuild
  · exact hbuild

/-- Without packages there is no decision, whatever the settings are. -/
theorem eq_undetermined_of_usesPropertyTesting {id : Text} {s : Cargo.Script} {o : Outcome}
    (hvalue : (usesPropertyTesting id c s).value = .ok o) : o = .undetermined := by
  simp only [usesPropertyTesting, c.packages_of_tellsNothing hnothing, List.isEmpty_nil,
    if_true] at hvalue
  obtain ⟨settings, -, hvalue⟩ := value_bind_eq_ok.1 hvalue
  obtain ⟨-, -, hvalue⟩ := value_bind_eq_ok.1 hvalue
  exact (Except.ok.inj hvalue).symm

end Rules

end

/-! ## Rules about one file -/

/-- The names that a rule about one file looks for, and its settings without an entry. -/
def BuiltIn.fileSearch? : BuiltIn → Option (Pattern × Settings.FilePresence)
  | .contributing => some (Rules.contributing, {})
  | .license => some (Rules.license, {})
  | .readme => some (Rules.readme, {})
  | .formatter => some (Rules.formatter, { requireNonempty := false })
  | _ => none

/-- A search for a file in the project directory, and nowhere else, with the note of the rule about
readme files. -/
def BuiltIn.searchHere (rule : BuiltIn) (pattern : Pattern) (absent : Settings.FilePresence)
    (c : Context) : Run RuleFault Outcome := do
  let s ← c.settingsOf rule.id Settings.FilePresence.ofJson absent
  let outcome ← Context.ask (c.host.scan pattern.accepts s.requireNonempty c.projectDirectory)
  if rule = .readme ∧ outcome = .failure then
    c.note ("No README file found in " ++ c.projectDirectory.text)
  return outcome

/-- **Where a rule about one file looks for it** when there is nothing to see in the metadata. -/
theorem BuiltIn.evaluate_of_fileSearch {c : Context} (hnothing : c.metadataResult.TellsNothing)
    {rule : BuiltIn} {pattern : Pattern} {absent : Settings.FilePresence}
    (hrule : rule.fileSearch? = some (pattern, absent)) :
    rule.evaluate c = rule.searchHere pattern absent c := by
  have hfile (id : Text) (pattern : Pattern) (absent : Settings.FilePresence) :
      Rules.hasFile id pattern absent c = (do
        let s ← c.settingsOf id Settings.FilePresence.ofJson absent
        Context.ask (c.host.scan pattern.accepts s.requireNonempty c.projectDirectory)) := by
    simp only [Rules.hasFile, Rules.searchProject_of_tellsNothing hnothing]
  cases rule with
  | contributing | license | formatter =>
    cases hrule
    simp only [evaluate, searchHere, hfile, reduceCtorEq, false_and, if_false, Run.bind_pure]
  | readme =>
    cases hrule
    simp only [evaluate, searchHere, Rules.hasReadme, hfile, Run.bind_assoc, true_and]
  | _ => cases hrule

/-! ## All rules -/

/-- Whichever result it is that is of no use, a rule does the same. -/
theorem Rule.evaluate_of_tellsNothing {c : Context} {r r' : MetadataResult}
    (hr : r.TellsNothing) (hr' : r'.TellsNothing) {rule : Rule}
    (hrule : rule ≠ .builtIn .metadataReadable) :
    rule.evaluate (c.withMetadataResult r) = rule.evaluate (c.withMetadataResult r') := by
  have hpackages : (c.withMetadataResult r).packages = (c.withMetadataResult r').packages :=
    (Context.packages_of_tellsNothing hr).trans (Context.packages_of_tellsNothing hr').symm
  have hworkspace : (c.withMetadataResult r).workspaceDirectory? =
      (c.withMetadataResult r').workspaceDirectory? :=
    (Context.workspaceDirectory?_of_tellsNothing hr).trans
      (Context.workspaceDirectory?_of_tellsNothing hr').symm
  exact evaluate_withMetadataResult (c := c.withMetadataResult r') hpackages hworkspace hrule

theorem Rule.callsOnly_of_tellsNothing {c : Context} (hnothing : c.metadataResult.TellsNothing)
    (rule : Rule) : CallsOnly ["build", "test"] (rule.evaluate c) := by
  cases rule with
  | custom rule =>
    have hcalls := ((Rule.custom rule).stepwise c).callsOnly c.verbose
    exact hcalls.of_subset (List.nil_subset _)
  | builtIn rule =>
    refine Leaves.bind ?_ fun _ => leaves_pure _
    have hcalls := rule.callsOnly_evaluate c
    cases rule with
    | buildsCleanly =>
      exact (Rules.callsOnly_buildsCleanly_of_tellsNothing hnothing _).of_subset (by simp)
    | passesTests => exact hcalls.of_subset (by simp [BuiltIn.subcommands])
    | _ => exact hcalls.of_subset (List.nil_subset _)

/-- **All results that are of no use lead to one run.**  If the query for metadata failed, whatever
its message and whatever it handed over, or if the metadata names neither a workspace root nor a
package, then rules that are not about the query itself come to the same findings, call the same
processes, write the same notes and log the same.  They clean no package, come to no decision about
libraries for property based tests, and look for a file in the project directory only. -/
theorem evaluateRules_withoutMetadata {r r' : MetadataResult} (hr : r.TellsNothing)
    (hr' : r'.TellsNothing) (c : Context) :
    let ending : MetadataResult → List Rule → Cargo.Script → Ending Failure (List Finding) :=
      fun result => evaluateRules (c.withMetadataResult result)
    (∀ rules, .builtIn .metadataReadable ∉ rules → ∀ s, ending r rules s = ending r' rules s) ∧
    (∀ rules s, (∀ call ∈ Event.calls (ending r rules s).events,
        call.subcommand? ≠ some "clean") ∧
      ∃ findings, (ending r rules s).value = .ok findings ∧
        List.Forall₂ (fun rule f => f.description = rule.description ∧
          (rule = .builtIn .propertyTesting → f.outcome = .undetermined)) rules findings) ∧
    ∀ (rule : BuiltIn) pattern absent, rule.fileSearch? = some (pattern, absent) →
      rule.evaluate (c.withMetadataResult r) = rule.searchHere pattern absent c := by
  intro ending
  refine ⟨fun rules hrules s => ?_, fun rules s => ⟨fun call hcall => ?_, ?_⟩,
    fun rule pattern absent hrule => ?_⟩
  · have hrun : (evaluateRules (c.withMetadataResult r) rules : Run Failure (List Finding)) =
        evaluateRules (c.withMetadataResult r') rules :=
      evaluateRules_congr fun rule hmem =>
        Rule.evaluate_of_tellsNothing hr hr' fun h => hrules (h ▸ hmem)
    exact congrFun hrun s
  · have hcalls : CallsOnly ["build", "test"]
        (evaluateRules (c.withMetadataResult r) rules : Run Failure (List Finding)) :=
      evaluateRules_callsOnly fun rule _ => rule.callsOnly_of_tellsNothing hr
    obtain ⟨sub, hmem, hsub⟩ := hcalls.of_mem_calls hcall
    rw [hsub]
    rintro ⟨⟩
    exact absurd hmem (by decide)
  · obtain ⟨findings, hvalue, hall⟩ :=
      evaluateRules_findingIn (ε := Failure) (c.withMetadataResult r) rules s
    refine ⟨findings, hvalue, hall.imp ?_⟩
    rintro rule f ⟨script, rfl⟩
    refine ⟨rfl, ?_⟩
    rintro rfl
    exact Rule.outcomeIn_eq_undetermined fun _ =>
      Rules.eq_undetermined_of_usesPropertyTesting hr
  · exact BuiltIn.evaluate_of_fileSearch (c := c.withMetadataResult r) hr hrule

/-- A query that failed and handed over a workspace all the same, and metadata that says nothing. -/
theorem evaluateRules_withoutMetadata_handed :
    let m : Cargo.Metadata := {
      workspaceRoot := "/w"
      packages := [{ name := "a", dependencies := [{ name := "proptest", kind := .dev }] }] }
    let r : MetadataResult := { status := .invalid, metadata := some m, message := "broken" }
    let r' : MetadataResult := .ofMetadata { workspaceRoot := [], packages := [] }
    let c : Context := { manifest := .ofText "/p/Cargo.toml", metadataResult := r, verbose := true }
    let rules : List Rule := [.builtIn .propertyTesting, .builtIn .buildsCleanly]
    let s : Cargo.Script := [("build", [.finished { exitCode := 101 }])]
    r.TellsNothing ∧ r'.TellsNothing ∧ .builtIn .metadataReadable ∉ rules ∧
      (evaluateRules (c.withMetadataResult r) rules s : Ending Failure (List Finding)) =
        evaluateRules (c.withMetadataResult r') rules s ∧
      ∃ testing building, (evaluateRules (c.withMetadataResult r) rules s).value =
          (.ok [testing, building] : Except Failure (List Finding)) ∧
        testing.outcome = .undetermined := by
  intro m r r' c rules s
  have hr : r.TellsNothing := fun hok => by cases hok
  have hr' : r'.TellsNothing := by
    rintro - _ ⟨⟩
    exact ⟨rfl, rfl⟩
  have hrules : .builtIn .metadataReadable ∉ rules := by simp [rules]
  obtain ⟨hsame, hrest, -⟩ := evaluateRules_withoutMetadata hr hr' c
  obtain ⟨-, findings, hvalue, hall⟩ := hrest rules s
  obtain ⟨testing, _, htesting, hbuilding, rfl⟩ := List.forall₂_cons_left_iff.1 hall
  obtain ⟨building, _, -, hnil, rfl⟩ := List.forall₂_cons_left_iff.1 hbuilding
  obtain rfl := List.forall₂_nil_left_iff.1 hnil
  exact ⟨hr, hr', hrules, hsame rules hrules s, testing, building, hvalue, htesting.2 rfl⟩

end ProjectAudit
