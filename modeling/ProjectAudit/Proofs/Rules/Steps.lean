import ProjectAudit.Audit.Evaluation
import ProjectAudit.Proofs.Run.Stepwise
import Mathlib.Data.List.Basic

/-!
# The steps of a rule

Every rule is put together from the steps of `Run.Stepwise`, and calls few subcommands: eight of the
ten built-in rules call no tool, one cleans and builds, and one runs the tests.  So no two built-in
rules call the same subcommand (`BuiltIn.disjoint_subcommands`), and a rule of the user's own, which
only writes notes, calls none.

This is the one place that goes through the rules step by step, on every way by which one of them
can end early.  `Rule.stepwise` sums it up.
-/

namespace ProjectAudit

open Run

/-- The subcommands that a built-in rule calls. -/
def BuiltIn.subcommands : BuiltIn → List Text
  | .buildsCleanly => ["clean", "build"]
  | .passesTests => ["test"]
  | _ => []

/-- The subcommands that a rule calls. -/
def Rule.subcommands : Rule → List Text
  | .builtIn rule => rule.subcommands
  | .custom _ => []

theorem BuiltIn.disjoint_subcommands {a b : BuiltIn} (h : a ≠ b) :
    List.Disjoint a.subcommands b.subcommands := by
  cases a <;> cases b <;> first | exact absurd rfl h | simp [subcommands, Text.ofString_inj]

/-! ## Rules that call no tool -/

namespace Rules

variable {own : List Text} (c : Context)

theorem stepwise_metadataReadable :
    Stepwise own fun verbose => metadataReadable (c.withVerbose verbose) := by
  -- said for the result of `c` itself, on which all choices hang
  show Stepwise own fun verbose =>
    let outcome : Outcome := if c.metadataResult.status = .invalid then .failure else .undetermined
    if c.metadataResult.status = .ok then pure .success
    else if !c.metadataResult.message.isEmpty then do
      (c.withVerbose verbose).note c.metadataResult.message
      pure outcome
    else pure outcome
  refine .choose (fun _ => .done _) fun _ => ?_
  exact .choose (fun _ => .noteThen c _ _) fun _ => .done _

theorem stepwise_searchProject (pattern : Pattern) (s : Settings.FilePresence) :
    Stepwise own fun verbose => searchProject (c.withVerbose verbose) pattern s := by
  simp only [searchProject, Context.host_withVerbose, Context.projectDirectory_withVerbose,
    Context.workspaceDirectory?_withVerbose]
  refine (Stepwise.ask _).bind fun outcome => ?_
  refine .choose (fun _ => .done _) fun _ => ?_
  cases c.workspaceDirectory? with
  | none => exact .done _
  | some workspace =>
    refine (Stepwise.ask _).bind fun same => ?_
    refine .choose (fun _ => .done _) fun _ => ?_
    refine (Stepwise.ask _).bind fun found => ?_
    exact .choose (fun _ => .noteThen c _ _) fun _ => .done _

theorem stepwise_hasFile (id : Text) (pattern : Pattern) (absent : Settings.FilePresence) :
    Stepwise own fun verbose => hasFile id pattern absent (c.withVerbose verbose) := by
  simp only [hasFile, Context.settingsOf_withVerbose]
  exact (Stepwise.settingsOf c _ _ _).bind fun s => stepwise_searchProject c pattern s

theorem stepwise_hasReadme (id : Text) :
    Stepwise own fun verbose => hasReadme id (c.withVerbose verbose) := by
  simp only [hasReadme, Context.projectDirectory_withVerbose]
  refine (stepwise_hasFile c id _ _).bind fun outcome => ?_
  exact .choose (fun _ => .noteThen c _ _) fun _ => .done _

theorem stepwise_hasContinuousIntegration (id : Text) :
    Stepwise own fun verbose => hasContinuousIntegration id (c.withVerbose verbose) := by
  simp only [hasContinuousIntegration, Context.settingsOf_withVerbose, Context.host_withVerbose,
    Context.projectDirectory_withVerbose]
  refine (Stepwise.settingsOf c _ _ _).bind fun s => ?_
  refine (Stepwise.ask _).bind fun isDirectory => ?_
  refine .choose (fun _ => ?_) fun _ => .noteThen c _ _
  refine (Stepwise.ofExcept (integrationFileIn c.host s (searchDirectories c s))).bind
    fun found => ?_
  cases found with
  | some found => exact .noteThen c _ _
  | none => exact .done _

theorem stepwise_usesPropertyTesting (id : Text) :
    Stepwise own fun verbose => usesPropertyTesting id (c.withVerbose verbose) := by
  simp only [usesPropertyTesting, Context.settingsOf_withVerbose, Context.packages_withVerbose]
  refine (Stepwise.settingsOf c _ _ _).bind fun s => ?_
  refine .choose (fun _ => .noteThen c _ _) fun _ => ?_
  cases s.libraries with
  | nil => exact .done _
  | cons library others =>
    dsimp only
    cases c.packages.find? fun p => !usesLibrary s (.startingWithAny library others) p with
    | some p => exact .noteThen c _ _
    | none => exact .done _

theorem stepwise_underSourceControl (id : Text) :
    Stepwise own fun verbose => underSourceControl id (c.withVerbose verbose) := by
  simp only [underSourceControl, Context.settingsOf_withVerbose, Context.host_withVerbose,
    Context.manifest_withVerbose]
  refine (Stepwise.settingsOf c _ _ _).bind fun s => ?_
  refine (Stepwise.ask _).bind fun manifest => ?_
  refine (Stepwise.ask _).bind fun found => ?_
  cases found with
  | some found => exact .noteThen c _ _
  | none => exact .done _

/-! ## Building and testing -/

theorem stepwise_cleanPackages (hclean : Text.ofString "clean" ∈ own) :
    ∀ names : List Text, Stepwise own fun verbose => cleanPackages (c.withVerbose verbose) names
  | [] => .done _
  | name :: names => by
    simp only [cleanPackages, Context.toolchain_withVerbose, Context.host_withVerbose,
      Context.manifest_withVerbose]
    refine (Stepwise.attemptCall _ _ _ hclean _ _ _).bind fun result => ?_
    cases result with
    | error e => exact .noteThen c _ _
    | ok output =>
      exact .choose (fun _ => stepwise_cleanPackages hclean names) fun _ => .noteThen c _ _

theorem stepwise_cleanProject (hclean : Text.ofString "clean" ∈ own) :
    Stepwise own fun verbose => cleanProject (c.withVerbose verbose) := by
  simp only [cleanProject, Context.packages_withVerbose]
  exact .choose (fun _ => .noteThen c _ _) fun _ => stepwise_cleanPackages c hclean _

theorem stepwise_noteDiagnostics :
    ∀ ds : List Cargo.Diagnostic,
      Stepwise own fun verbose => noteDiagnostics (c.withVerbose verbose) ds
  | [] => .done _
  | _ :: ds => (Stepwise.note c _).bind fun _ => stepwise_noteDiagnostics ds

theorem stepwise_judgeBuild (output : Cargo.Output) :
    Stepwise own fun verbose => judgeBuild (c.withVerbose verbose) output := by
  simp only [judgeBuild]
  refine .choose (fun _ => (Stepwise.note c _).bind fun _ => .noteThen c _ _) fun _ => ?_
  cases output.stdoutText with
  | error e => exact .noteThen c _ _
  | ok stdout =>
    refine (Stepwise.ofExcept _).bind fun diagnostics => ?_
    refine .choose (fun _ => .done _) fun _ => ?_
    refine (Stepwise.note c _).bind fun _ => ?_
    exact (stepwise_noteDiagnostics c _).bind fun _ => .done _

theorem stepwise_build (hbuild : Text.ofString "build" ∈ own) :
    Stepwise own fun verbose => build (c.withVerbose verbose) := by
  simp only [build, Context.toolchain_withVerbose, Context.host_withVerbose,
    Context.manifest_withVerbose]
  refine (Stepwise.attemptCall _ _ _ hbuild _ _ _).bind fun result => ?_
  cases result with
  | error e => exact .noteThen c _ _
  | ok output => exact stepwise_judgeBuild c output

theorem stepwise_buildsCleanly (id : Text) (hclean : Text.ofString "clean" ∈ own)
    (hbuild : Text.ofString "build" ∈ own) :
    Stepwise own fun verbose => buildsCleanly id (c.withVerbose verbose) := by
  simp only [buildsCleanly, Context.settingsOf_withVerbose]
  refine (Stepwise.settingsOf c _ _ _).bind fun s => ?_
  refine .choose (fun _ => ?_) fun _ => stepwise_build c hbuild
  refine (stepwise_cleanProject c hclean).bind fun outcome => ?_
  cases outcome with
  | some outcome => exact .done _
  | none => exact stepwise_build c hbuild

theorem stepwise_judgeTests (s : Settings.Tests) (output : Cargo.Output) :
    Stepwise own fun verbose => judgeTests (c.withVerbose verbose) s output := by
  simp only [judgeTests]
  cases output.stdoutText with
  | error e => exact .noteThen c _ _
  | ok stdout =>
    dsimp only
    rcases Cargo.TestSummary.ofOutput stdout with (_ | _) | summary
    · refine (Stepwise.note c _).bind fun _ => ?_
      exact .choose (fun _ => .noteThen c _ _) fun _ => .done _
    · exact .fail _
    · exact .choose (fun _ => .noteThen c _ _) fun _ => .fail _

theorem stepwise_passesTests (id : Text) (htest : Text.ofString "test" ∈ own) :
    Stepwise own fun verbose => passesTests id (c.withVerbose verbose) := by
  simp only [passesTests, Context.settingsOf_withVerbose, Context.toolchain_withVerbose,
    Context.host_withVerbose, Context.manifest_withVerbose]
  refine (Stepwise.settingsOf c _ _ _).bind fun s => ?_
  refine .choose (fun _ => .noteThen c _ _) fun _ => ?_
  refine (Stepwise.attemptCall _ _ _ htest _ _ _).bind fun result => ?_
  cases result with
  | error e => exact .noteThen c _ _
  | ok output => exact stepwise_judgeTests c s output

end Rules

/-! ## All rules -/

theorem BuiltIn.stepwise (rule : BuiltIn) (c : Context) :
    Stepwise rule.subcommands fun verbose => rule.evaluate (c.withVerbose verbose) := by
  cases rule with
  | metadataReadable => exact Rules.stepwise_metadataReadable c
  | contributing => exact Rules.stepwise_hasFile c _ _ _
  | license => exact Rules.stepwise_hasFile c _ _ _
  | readme => exact Rules.stepwise_hasReadme c _
  | continuousIntegration => exact Rules.stepwise_hasContinuousIntegration c _
  | buildsCleanly =>
    exact Rules.stepwise_buildsCleanly c _ (by simp [subcommands]) (by simp [subcommands])
  | passesTests => exact Rules.stepwise_passesTests c _ (by simp [subcommands])
  | propertyTesting => exact Rules.stepwise_usesPropertyTesting c _
  | formatter => exact Rules.stepwise_hasFile c _ _ _
  | sourceControl => exact Rules.stepwise_underSourceControl c _

theorem Rule.stepwise_writeNotes (c : Context) {own : List Text} :
    ∀ notes : List Text, Stepwise own fun verbose => writeNotes (c.withVerbose verbose) notes
  | [] => .done _
  | _ :: notes => (Stepwise.note c _).bind fun _ => stepwise_writeNotes c notes

/-- **A rule takes only the steps of rules**, and calls its own subcommands only. -/
theorem Rule.stepwise (rule : Rule) (c : Context) :
    Stepwise rule.subcommands fun verbose => rule.evaluate (c.withVerbose verbose) := by
  cases rule with
  | builtIn rule => exact (rule.stepwise c).bind fun _ => .done _
  | custom rule =>
    refine (stepwise_writeNotes c rule.notes).bind fun _ => ?_
    cases rule.ending with
    | outcome o => exact .done _
    | value v => exact .done _
    | raise => exact .fail _

end ProjectAudit
