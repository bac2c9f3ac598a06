import ProjectAudit.Proofs.Files.Refusals
import ProjectAudit.Proofs.Rules.Building
import ProjectAudit.Proofs.Rules.Testing

/-!
# Rules that end with a fault

A rule should come to an outcome whatever it meets, an undetermined one if it cannot decide.  Two
of the ten built-in rules do.  The others meet questions that they do not expect to go without an
answer: a path that is too long for the file system, a path that cannot be resolved, a call that
cannot be handed over to the system, and a number of more digits than are read or written.

For each rule the situations in which it ends with a fault are described here by what is in the
file tree and by what the tool is given and replies, and `BuiltIn.evaluates_iff` says that there are
no others, on a host that refuses no lookup for lack of permission and prints every text that it is
given.

* `Rules.SearchFaults`: the four rules that look for a file by its name.
* `Rules.IntegrationFaults`, `Rules.ControlFaults`: the search for continuous integration, and the
  search for a version control system.
* `Rules.BuildFaults`, `Rules.TestsFault`: the rules that call the tool.
-/

namespace ProjectAudit

open Run

namespace Context

variable {ε α β : Type} (c : Context) (message : Text) (s : Cargo.Script)

theorem not_faults_noteThen (a : α) : ¬ (do c.note message; pure a : Run ε α).Faults s := by
  rw [Faults, (c.noteThen_ending message s a).1]
  exact not_fails_ok a

theorem faults_ask_bind {answer : Except PathFault α} {f : α → Run RuleFault β}
    {s : Cargo.Script} :
    (Context.ask answer >>= f).Faults s ↔
      Fails answer ∨ ∃ a, answer = .ok a ∧ (f a).Faults s := by
  simp only [ask, faults_ofExcept_bind, fails_mapError, mapError_eq_ok]

end Context

namespace Cargo.Diagnostic

/-- A line that is taken for a message, and goes beyond the limits of the reader. -/
def IsBeyondLimits (line : Text) : Prop :=
  (Text.trim line).head? = some (.char '\x7b') ∧
    ∃ l, Json.read (Text.trim line) = .error (.limit l)

theorem fails_ofOutputLine_iff {line : Text} :
    Fails (ofOutputLine line) ↔ IsBeyondLimits line := by
  rw [ofOutputLine, IsBeyondLimits]
  split
  · rename_i hbrace
    rcases Json.read (Text.trim line) with (e | l) | message
    · simp [hbrace, not_fails_ok]
    · simp [hbrace, fails_error]
    · simp [hbrace, not_fails_ok]
  · rename_i hbrace
    simp [hbrace, not_fails_ok]

theorem fails_collect_iff {stdout : Text} (stderr : Text) :
    Fails (collect stdout stderr) ↔ ∃ line ∈ Text.splitLines stdout, IsBeyondLimits line := by
  rw [collect, fails_map, ofOutput, fails_map, fails_mapM]
  simp only [fails_ofOutputLine_iff]

end Cargo.Diagnostic

namespace Cargo.TestSummary

/-- The summary lines of a text have a count with too many digits, or add up to a number of tests
with too many digits. -/
def CountTooLong (output : Text) : Prop :=
  (∃ line ∈ Text.splitNewlines output, ∃ r, BinaryResult.ofLine? line = some r ∧
      (Text.maxDigits < r.passed.length ∨ Text.maxDigits < r.failed.length)) ∨
    ∃ summary, ofOutput output = .ok summary ∧ Text.isWritable summary.ran = false

theorem fails_totals_iff {output : Text} :
    Fails (totals output) ↔ ∃ line ∈ Text.splitNewlines output, ∃ r,
      BinaryResult.ofLine? line = some r ∧
        (Text.maxDigits < r.passed.length ∨ Text.maxDigits < r.failed.length) := by
  rw [totals, fails_map, fails_mapM]
  simp only [Fails, ofBinary_eq_error_iff, exists_and_right, List.mem_filterMap]
  constructor
  · rintro ⟨r, ⟨line, hline, hr⟩, hlong⟩
    exact ⟨line, hline, r, hr, hlong.2⟩
  · rintro ⟨line, hline, r, hr, hlong⟩
    exact ⟨r, ⟨line, hline, hr⟩, ⟨_, rfl⟩, hlong⟩

theorem countTooLong_iff {output : Text} :
    CountTooLong output ↔ ofOutput output = .error .countTooLong ∨
      ∃ summary, ofOutput output = .ok summary ∧ Text.isWritable summary.ran = false := by
  refine or_congr_left ?_
  rw [← fails_totals_iff, ofOutput]
  rcases htotals : totals output with e | summary
  · obtain rfl := eq_countTooLong_of_totals htotals
    simp [fails_error, bind, Except.bind]
  · simp only [not_fails_ok, bind, Except.bind, false_iff]
    split <;> simp

end Cargo.TestSummary

namespace Rules

variable {c : Context} {s : Cargo.Script}

/-! ## Looking for a file by its name -/

/-- The search for a file in the project directory and the workspace root ends with a fault: the
project directory is too long a path, or the file is not there, and the workspace root is another
directory with too long a path or one of the two directories cannot be resolved. -/
def SearchFaults (c : Context) (pattern : Pattern) (s : Settings.FilePresence) : Prop :=
  c.host.TooLong c.projectDirectory ∨
    c.host.scan pattern.accepts s.requireNonempty c.projectDirectory ≠ .ok .success ∧
      s.searchWorkspaceRoot = true ∧ ∃ workspace, c.workspaceDirectory? = some workspace ∧
        (Fails (c.host.resolve workspace) ∨ Fails (c.host.resolve c.projectDirectory) ∨
          c.host.resolve workspace ≠ c.host.resolve c.projectDirectory ∧ c.host.TooLong workspace)

theorem fails_sameDirectory_iff {h : Host} {a b : Path} :
    Fails (sameDirectory h a b) ↔ Fails (h.resolve a) ∨ Fails (h.resolve b) := by
  rw [sameDirectory, fails_bind]
  cases ha : h.resolve a with
  | error e => simp [fails_error]
  | ok a =>
    simp only [not_fails_ok, false_or, Except.ok.injEq, exists_eq_left']
    rw [fails_bind]
    exact or_iff_left fun ⟨_, _, hfails⟩ => not_fails_ok _ hfails

theorem sameDirectory_eq_ok {h : Host} {a b a' b' : Path} (ha : h.resolve a = .ok a')
    (hb : h.resolve b = .ok b') : sameDirectory h a b = .ok (a' == b') := by
  rw [sameDirectory, ha, hb]
  rfl

theorem faults_searchProject_iff {pattern : Pattern} {settings : Settings.FilePresence} :
    (searchProject c pattern settings).Faults s ↔ SearchFaults c pattern settings := by
  rw [searchProject, Context.faults_ask_bind, Host.fails_scan_iff, SearchFaults]
  by_cases hlong : c.host.TooLong c.projectDirectory
  · simp [hlong]
  obtain ⟨outcome, houtcome⟩ := not_fails_iff.1
    fun hfails : Fails (c.host.scan pattern.accepts settings.requireNonempty _) =>
      hlong (Host.fails_scan_iff.1 hfails)
  simp only [hlong, false_or, houtcome, Except.ok.injEq, exists_eq_left']
  by_cases hended : outcome = .success ∨ settings.searchWorkspaceRoot = false
  · have hif : (outcome = .success || !settings.searchWorkspaceRoot) = true := by
      simpa using hended
    rw [if_pos hif]
    rcases hended with rfl | hsearch
    · simp
    · simp [hsearch]
  obtain ⟨hne, hsearch⟩ := not_or.1 hended
  have hsearch : settings.searchWorkspaceRoot = true := by simpa using hsearch
  have hif : ¬ (outcome = .success || !settings.searchWorkspaceRoot) = true := by
    simp [hne, hsearch]
  rw [if_neg hif]
  cases c.workspaceDirectory? with
  | none => simp
  | some workspace =>
    simp only [Option.some.injEq, exists_eq_left', Except.ok.injEq, hne, hsearch, ne_eq,
      not_false_eq_true, true_and]
    rw [Context.faults_ask_bind, fails_sameDirectory_iff]
    rcases hw : c.host.resolve workspace with e | w
    · simp [fails_error]
    rcases hp : c.host.resolve c.projectDirectory with e | p
    · simp [fails_error]
    rw [sameDirectory_eq_ok hw hp]
    simp only [not_fails_ok, false_or, Except.ok.injEq, exists_eq_left']
    by_cases hsame : w = p
    · simp [hsame]
    simp only [hsame, beq_iff_eq, if_false, not_false_eq_true, true_and]
    rw [Context.faults_ask_bind, Host.fails_scan_iff]
    refine or_iff_left ?_
    rintro ⟨found, -, hfaults⟩
    split at hfaults
    · exact c.not_faults_noteThen _ _ _ hfaults
    · exact not_faults_pure _ hfaults

/-- A readme file is looked for like any other; the note about a missing one changes nothing. -/
theorem faults_readme_iff {x : Run RuleFault Outcome} {message : Text} :
    (do
      let outcome ← x
      if outcome = .failure then c.note message
      return outcome : Run RuleFault Outcome).Faults s ↔ x.Faults s := by
  refine faults_bind_of_not_faults fun outcome t => ?_
  dsimp only
  split
  · exact c.not_faults_noteThen _ _ _
  · exact not_faults_pure _

/-! ## Looking for continuous integration -/

/-- The search in one directory ends with a fault: there is a pattern that cannot be read or the
directory is too long a path, or nothing is found in the directory and the directory of the
workflows is too long a path. -/
def IntegrationFaultsAt (h : Host) (settings : Settings.ContinuousIntegration)
    (directory : Path) : Prop :=
  settings.fileNamePattern.isEmpty = false ∧
      (Fails (h.libraries.matcher settings.fileNamePattern) ∨ h.TooLong directory) ∨
    matchingFile h directory settings = .ok none ∧
      h.firstPresent? settings.requireNonempty directory settings.fileNames = none ∧
      settings.workflowDirectory.isEmpty = false ∧
      h.TooLong (directory.child settings.workflowDirectory)

/-- The search for continuous integration ends with a fault: the project directory is too long a
path, or it is a directory and the search fails at one of the directories to search, those before it
holding nothing. -/
def IntegrationFaults (c : Context) (settings : Settings.ContinuousIntegration) : Prop :=
  c.host.TooLong c.projectDirectory ∨
    c.host.isDirectory c.projectDirectory = .ok true ∧
      ∃ directory, ReachedBy (integrationFile c.host · settings)
          (searchDirectories c settings) directory ∧
        IntegrationFaultsAt c.host settings directory

variable {h : Host} {settings : Settings.ContinuousIntegration} {directory : Path}

theorem fails_firstFile_iff {accepts : Path → Bool} {nonempty : Bool} :
    Fails (firstFile h directory accepts nonempty) ↔ h.TooLong directory := by
  rw [← Host.fails_isDirectory_iff, firstFile, fails_bind]
  refine or_iff_left ?_
  rintro ⟨b, -, hfails⟩
  cases b with
  | false => exact not_fails_ok _ hfails
  | true =>
    rcases hnames : h.namesIn? directory with _ | names
    · rw [hnames] at hfails
      exact not_fails_ok _ hfails
    · rw [hnames] at hfails
      exact not_fails_ok _ hfails

theorem fails_matchingFile_iff :
    Fails (matchingFile h directory settings) ↔
      settings.fileNamePattern.isEmpty = false ∧
        (Fails (h.libraries.matcher settings.fileNamePattern) ∨ h.TooLong directory) := by
  rw [matchingFile]
  cases hempty : settings.fileNamePattern.isEmpty with
  | true => simp [not_fails_ok]
  | false =>
    simp only [Bool.false_eq_true, if_false, true_and]
    simp only [fails_bind, fails_mapError, mapError_eq_ok, fails_firstFile_iff]
    rcases h.libraries.matcher settings.fileNamePattern with e | accepts
    · simp [fails_error]
    · simp [not_fails_ok]

theorem fails_integrationFile_iff :
    Fails (integrationFile h directory settings) ↔ IntegrationFaultsAt h settings directory := by
  rw [integrationFile, fails_bind, fails_matchingFile_iff, IntegrationFaultsAt]
  refine or_congr_right ?_
  rcases hmatching : matchingFile h directory settings with e | (_ | found)
  · simp
  · simp only [Except.ok.injEq, exists_eq_left', true_and]
    cases h.firstPresent? settings.requireNonempty directory settings.fileNames with
    | some found => simp [not_fails_ok, pure, Except.pure]
    | none =>
      cases hempty : settings.workflowDirectory.isEmpty with
      | true => simp [not_fails_ok, pure, Except.pure]
      | false => simp [fails_firstFile_iff]
  · simp [not_fails_ok, pure, Except.pure]

theorem integrationFileIn_eq_firstSome :
    integrationFileIn h settings = firstSome (integrationFile h · settings) := by
  funext directories
  induction directories with
  | nil => rfl
  | cons directory rest ih =>
    rw [integrationFileIn, firstSome, ih]
    rcases integrationFile h directory settings with e | (_ | found) <;> rfl

theorem faults_hasContinuousIntegration_iff {id : Text}
    (hsettings : c.settingsOf id Settings.ContinuousIntegration.ofJson {} = pure settings) :
    (hasContinuousIntegration id c).Faults s ↔ IntegrationFaults c settings := by
  rw [hasContinuousIntegration, hsettings, faults_bind_of_ok (a := settings) rfl,
    Context.faults_ask_bind, Host.fails_isDirectory_iff, IntegrationFaults]
  refine or_congr_right ?_
  rcases c.host.isDirectory c.projectDirectory with e | (_ | _)
  · simp
  · simp [Context.not_faults_noteThen]
  · simp only [Except.ok.injEq, exists_eq_left', if_true, true_and, pure_apply]
    rw [faults_ofExcept_bind, integrationFileIn_eq_firstSome, fails_firstSome_iff]
    simp only [fails_integrationFile_iff]
    refine or_iff_left ?_
    rintro ⟨found, -, hfaults⟩
    cases found with
    | none => exact not_faults_pure _ hfaults
    | some found => exact c.not_faults_noteThen _ _ _ hfaults

/-! ## Looking for a version control system -/

/-- The search for a version control system ends with a fault: the manifest cannot be resolved, or
above it there is a directory in which one of the names is too long a path, and up to that place no
name is that of a directory. -/
def ControlFaults (c : Context) (settings : Settings.SourceControl) : Prop :=
  Fails (c.host.resolve c.manifest) ∨
    ∃ manifest, c.host.resolve c.manifest = .ok manifest ∧
      ∃ before above after, manifest.ancestors = before ++ above :: after ∧
        (∀ other ∈ before, ∀ name ∈ settings.directories,
          c.host.isDirectory (other.child name) = .ok false) ∧
        ∃ passed name left, settings.directories = passed ++ name :: left ∧
          (∀ other ∈ passed, c.host.isDirectory (above.child other) = .ok false) ∧
          c.host.TooLong (above.child name)

/-- The name, if it is that of a directory. -/
def directoryNamed (h : Host) (above : Path) (name : Text) : Except PathFault (Option Text) :=
  (h.isDirectory (above.child name)).map fun isDirectory => if isDirectory then some name else none

/-- A directory with the first of the names that is in it. -/
def controlledBy (h : Host) (names : List Text) (above : Path) :
    Except PathFault (Option (Path × Text)) :=
  (firstDirectory h above names).map fun found => found.map fun name => (above, name)

theorem firstDirectory_eq_firstSome {above : Path} :
    firstDirectory h above = firstSome (directoryNamed h above) := by
  funext names
  induction names with
  | nil => rfl
  | cons name names ih =>
    rw [firstDirectory, firstSome, ih, directoryNamed]
    rcases h.isDirectory (above.child name) with e | (_ | _) <;> rfl

theorem controlDirectory_eq_firstSome {names : List Text} :
    controlDirectory h names = firstSome (controlledBy h names) := by
  funext directories
  induction directories with
  | nil => rfl
  | cons above rest ih =>
    rw [controlDirectory, firstSome, ih, controlledBy]
    rcases firstDirectory h above names with e | (_ | name) <;> rfl

theorem directoryNamed_eq_none_iff {above : Path} {name : Text} :
    directoryNamed h above name = .ok none ↔ h.isDirectory (above.child name) = .ok false := by
  rw [directoryNamed]
  rcases h.isDirectory (above.child name) with e | (_ | _) <;> simp [Except.map]

theorem controlledBy_eq_none_iff {names : List Text} {above : Path} :
    controlledBy h names above = .ok none ↔
      ∀ name ∈ names, h.isDirectory (above.child name) = .ok false := by
  simp only [← directoryNamed_eq_none_iff, ← firstSome_eq_none_iff, ← firstDirectory_eq_firstSome]
  rw [controlledBy]
  rcases firstDirectory h above names with e | (_ | name) <;> simp [Except.map]

theorem fails_controlledBy_iff {names : List Text} {above : Path} :
    Fails (controlledBy h names above) ↔
      ∃ passed name left, names = passed ++ name :: left ∧
        (∀ other ∈ passed, h.isDirectory (above.child other) = .ok false) ∧
        h.TooLong (above.child name) := by
  simp only [controlledBy, fails_map, firstDirectory_eq_firstSome, fails_firstSome_iff, ReachedBy,
    directoryNamed_eq_none_iff]
  simp only [directoryNamed, fails_map, Host.fails_isDirectory_iff]
  constructor
  · rintro ⟨name, ⟨passed, left, hnames, hpassed⟩, hlong⟩
    exact ⟨passed, name, left, hnames, hpassed, hlong⟩
  · rintro ⟨passed, name, left, hnames, hpassed, hlong⟩
    exact ⟨name, ⟨passed, left, hnames, hpassed⟩, hlong⟩

theorem fails_controlDirectory_iff {names : List Text} {directories : List Path} :
    Fails (controlDirectory h names directories) ↔
      ∃ before above after, directories = before ++ above :: after ∧
        (∀ other ∈ before, ∀ name ∈ names, h.isDirectory (other.child name) = .ok false) ∧
        Fails (controlledBy h names above) := by
  rw [controlDirectory_eq_firstSome, fails_firstSome_iff]
  constructor
  · rintro ⟨above, ⟨before, after, hall, hbefore⟩, hfails⟩
    have hnone : ∀ b ∈ before, _ := fun b hb => controlledBy_eq_none_iff.1 (hbefore b hb)
    exact ⟨before, above, after, hall, hnone, hfails⟩
  · rintro ⟨before, above, after, hall, hbefore, hfails⟩
    exact ⟨above, ⟨before, after, hall, fun b hb => controlledBy_eq_none_iff.2 (hbefore b hb)⟩,
      hfails⟩

theorem faults_underSourceControl_iff {id : Text} {settings : Settings.SourceControl}
    (hsettings : c.settingsOf id Settings.SourceControl.ofJson {} = pure settings) :
    (underSourceControl id c).Faults s ↔ ControlFaults c settings := by
  rw [underSourceControl, hsettings, faults_bind_of_ok (a := settings) rfl,
    Context.faults_ask_bind, ControlFaults]
  refine or_congr_right (exists_congr fun manifest => and_congr_right fun _ => ?_)
  rw [pure_apply, Context.faults_ask_bind, fails_controlDirectory_iff]
  simp only [fails_controlledBy_iff]
  refine or_iff_left ?_
  rintro ⟨found, -, hfaults⟩
  cases found with
  | none => exact not_faults_pure _ hfaults
  | some found => exact c.not_faults_noteThen _ _ _ hfaults

/-! ## Building -/

/-- The build succeeds, and a line of what it prints goes beyond the limits of the reader. -/
def PrintsBeyondLimits (reply : Cargo.Reply) : Prop :=
  ∃ response, reply = .finished response ∧ response.success = true ∧
    ∃ stdout, Text.Utf8.decode response.stdout = .ok stdout ∧
      ∃ line ∈ Text.splitLines stdout, Cargo.Diagnostic.IsBeyondLimits line

/-- The rule that builds ends with a fault: the process for one of the packages cannot be handed
over to the system, those before it being cleaned; or every package is cleaned, and the build cannot
be handed over, or succeeds and prints what goes beyond the limits of the reader. -/
def BuildFaults (c : Context) (settings : Settings.Build) (s : Cargo.Script) : Prop :=
  let names := if settings.cleanBeforeBuild then c.packages.map (·.name) else []
  (∃ before name after, names = before ++ name :: after ∧ c.Cleans before s ∧
      ¬ c.CanCall (c.cleanCall name)) ∨
    c.Cleans names s ∧ (¬ c.CanCall c.buildCall ∨ PrintsBeyondLimits (s.reply "build"))

theorem faults_judgeBuild_iff {output : Cargo.Output} :
    (judgeBuild c output).Faults s ↔
      output.success = true ∧ ∃ stdout, output.stdoutText = .ok stdout ∧
        ∃ line ∈ Text.splitLines stdout, Cargo.Diagnostic.IsBeyondLimits line := by
  rw [Faults, judgeBuild_ending]
  cases output.success with
  | false => simp [not_fails_ok]
  | true =>
    rcases output.stdoutText with e | stdout
    · simp [not_fails_ok]
    simp only [if_true, true_and, Except.ok.injEq, exists_eq_left']
    rw [← Cargo.Diagnostic.fails_collect_iff output.stderrText]
    rcases Cargo.Diagnostic.collect stdout output.stderrText with l | found
    · simp [fails_error]
    · simp [not_fails_ok]

theorem faults_build_iff :
    (build c).Faults s ↔ ¬ c.CanCall c.buildCall ∨ PrintsBeyondLimits (s.reply "build") := by
  have hcalled := c.calls_build s
  rw [build]
  by_cases hcan : c.CanCall c.buildCall
  · rw [faults_bind_of_ok (hcalled.value_eq hcan), or_iff_right (not_not_intro hcan),
      PrintsBeyondLimits]
    cases s.reply "build" with
    | notStarted reason => simpa [Cargo.Toolchain.replied] using c.not_faults_noteThen _ _ _
    | finished response =>
      simp only [Cargo.Toolchain.replied, Cargo.Reply.finished.injEq, exists_eq_left']
      exact faults_judgeBuild_iff
  · exact iff_of_true (faults_bind.2 (.inl (hcalled.fails hcan))) (.inl hcan)

/-- Cleaning packages comes to no outcome exactly if every package is cleaned. -/
theorem value_cleanPackages_eq_none_iff {names : List Text} :
    (cleanPackages c names s).value = .ok none ↔ c.Cleans names s := by
  induction names generalizing s with
  | nil => exact iff_of_true rfl Context.cleans_nil
  | cons name names ih =>
    rw [Context.cleans_cons_iff]
    by_cases hfirst : c.CanCall (c.cleanCall name) ∧ (s.reply "clean").Succeeds
    · obtain ⟨hvalue, -, -⟩ := cleanPackages_cons_of_cleaned hfirst.1 hfirst.2 names
      rw [hvalue, ih, and_iff_right hfirst]
    · refine iff_of_false (fun hnone => ?_) fun hcleans => hfirst hcleans.1
      obtain ⟨-, hstopped, hfails⟩ := cleanPackages_cons_of_not_cleaned hfirst names
      by_cases hcan : c.CanCall (c.cleanCall name)
      · cases (hstopped hcan).symm.trans hnone
      · obtain ⟨fault, hfault⟩ := hfails hcan
        cases hfault.symm.trans hnone

/-- Cleaning packages ends with a fault at the first one that is not cleaned, if its process cannot
be handed over. -/
theorem faults_cleanPackages_iff {names : List Text} :
    (cleanPackages c names).Faults s ↔ ∃ before name after, names = before ++ name :: after ∧
      c.Cleans before s ∧ ¬ c.CanCall (c.cleanCall name) := by
  induction names generalizing s with
  | nil =>
    refine iff_of_false (not_faults_pure _) ?_
    rintro ⟨before, name, after, hsplit, -⟩
    simp at hsplit
  | cons name names ih =>
    rw [exists_cut_cons_iff]
    simp only [Context.cleans_nil, true_and, Context.cleans_cons_iff]
    by_cases hfirst : c.CanCall (c.cleanCall name) ∧ (s.reply "clean").Succeeds
    · obtain ⟨hvalue, -, -⟩ := cleanPackages_cons_of_cleaned hfirst.1 hfirst.2 names
      rw [Faults, hvalue, ← Faults, ih]
      simp only [hfirst, and_self, true_and, not_true_eq_false, false_or]
    · -- no package behind this one is come to
      simp only [hfirst, false_and, and_false, exists_false, or_false]
      obtain ⟨-, hstopped, hfails⟩ := cleanPackages_cons_of_not_cleaned hfirst names
      by_cases hcan : c.CanCall (c.cleanCall name)
      · rw [Faults, hstopped hcan]
        exact iff_of_false (not_fails_ok _) (not_not_intro hcan)
      · exact iff_of_true (hfails hcan) hcan

theorem faults_buildsCleanly_iff {id : Text} {settings : Settings.Build}
    (hsettings : c.settingsOf id Settings.Build.ofJson {} = pure settings) :
    (buildsCleanly id c).Faults s ↔ BuildFaults c settings s := by
  rw [buildsCleanly, hsettings, faults_bind_of_ok (a := settings) rfl, pure_apply, BuildFaults]
  cases settings.cleanBeforeBuild with
  | false =>
    simp only [Bool.false_eq_true, if_false, faults_build_iff, Context.cleans_nil, true_and]
    exact (or_iff_right (by rintro ⟨before, name, after, hsplit, -⟩; simp at hsplit)).symm
  | true =>
    simp only [if_true]
    obtain ⟨hvalue, hscript, -⟩ := cleanProject_ending c s
    rw [faults_bind, hscript, ← faults_cleanPackages_iff, Faults, Faults, hvalue]
    refine or_congr_right ?_
    constructor
    · rintro ⟨outcome, hended, hgo⟩
      cases outcome with
      | some outcome => exact absurd hgo (not_faults_pure _)
      | none =>
        have hcleans := value_cleanPackages_eq_none_iff.1 hended
        obtain ⟨-, hreply, -⟩ := cleanPackages_of_cleaned hcleans
        dsimp only at hgo
        rw [faults_build_iff, hreply] at hgo
        exact ⟨hcleans, hgo⟩
    · rintro ⟨hcleans, hgo⟩
      obtain ⟨hended, hreply, -⟩ := cleanPackages_of_cleaned hcleans
      refine ⟨none, hended, ?_⟩
      dsimp only
      rw [faults_build_iff, hreply]
      exact hgo

/-! ## Testing -/

/-- The rule that tests ends with a fault: it is not part of a test run itself, and the call of the
tests cannot be handed over to the system, or what the tests print has a count, or comes to one, of
more digits than a number may have. -/
def TestsFault (c : Context) (s : Cargo.Script) : Prop :=
  c.host.recursionGuardActive = false ∧ (¬ c.CanTest ∨
    ∃ response, s.reply "test" = .finished response ∧
      ∃ stdout, Text.Utf8.decode response.stdout = .ok stdout ∧
        Cargo.TestSummary.CountTooLong stdout)

theorem faults_judgeTests_iff {settings : Settings.Tests} {output : Cargo.Output} :
    (judgeTests c settings output).Faults s ↔
      ∃ stdout, output.stdoutText = .ok stdout ∧ Cargo.TestSummary.CountTooLong stdout := by
  rw [Faults, judgeTests_ending]
  rcases output.stdoutText with e | stdout
  · simp [not_fails_ok]
  simp only [Except.ok.injEq, exists_eq_left', Cargo.TestSummary.countTooLong_iff]
  rw [testVerdict]
  rcases Cargo.TestSummary.ofOutput stdout with (_ | _) | summary
  · simp [not_fails_ok]
  · simp [fails_error]
  · cases hwritable : Text.isWritable summary.ran with
    | true => simp [hwritable, not_fails_ok]
    | false => simp [hwritable, fails_error]

theorem faults_passesTests_iff {id : Text} {settings : Settings.Tests}
    (hsettings : c.settingsOf id Settings.Tests.ofJson {} = pure settings) :
    (passesTests id c).Faults s ↔ TestsFault c s := by
  rw [passesTests, hsettings, faults_bind_of_ok (a := settings) rfl, pure_apply, TestsFault]
  dsimp only
  cases c.host.recursionGuardActive with
  | true => simpa using c.not_faults_noteThen _ _ _
  | false =>
    simp only [Bool.false_eq_true, if_false, true_and]
    by_cases hcan : c.CanTest
    · rw [Cargo.Toolchain.test, faults_bind_of_ok (Cargo.value_attemptCall_of_passes hcan),
        or_iff_right (not_not_intro hcan)]
      cases s.reply "test" with
      | notStarted reason => simpa [Cargo.Toolchain.replied] using c.not_faults_noteThen _ _ _
      | finished response =>
        simp only [Cargo.Toolchain.replied, Cargo.Reply.finished.injEq, exists_eq_left']
        exact faults_judgeTests_iff
    · obtain ⟨fault, hfault⟩ := Cargo.value_attemptCall_of_not_passes hcan
      exact iff_of_true (faults_bind.2 (.inl ⟨_, hfault⟩)) (.inl hcan)

end Rules

/-! ## All rules -/

/-- The context with no settings for any rule. -/
def Context.withoutSettings (c : Context) : Context :=
  { c with settings := {} }

/-- The situations in which a built-in rule without settings of its own ends with a fault. -/
def BuiltIn.FaultsIn (rule : BuiltIn) (c : Context) (s : Cargo.Script) : Prop :=
  match rule with
  | .metadataReadable | .propertyTesting => False
  | .contributing => Rules.SearchFaults c Rules.contributing {}
  | .license => Rules.SearchFaults c Rules.license {}
  | .readme => Rules.SearchFaults c Rules.readme {}
  | .formatter => Rules.SearchFaults c Rules.formatter { requireNonempty := false }
  | .continuousIntegration => Rules.IntegrationFaults c {}
  | .buildsCleanly => Rules.BuildFaults c {} s
  | .passesTests => Rules.TestsFault c s
  | .sourceControl => Rules.ControlFaults c {}

namespace Rules

variable {c : Context} {s : Cargo.Script}

theorem cleans_withoutSettings_iff {names : List Text} :
    c.withoutSettings.Cleans names s ↔ c.Cleans names s :=
  ⟨fun h => ⟨h.canCall, h.succeeds⟩, fun h => ⟨h.canCall, h.succeeds⟩⟩

theorem buildFaults_withoutSettings_iff {settings : Settings.Build} :
    BuildFaults c.withoutSettings settings s ↔ BuildFaults c settings s := by
  rw [BuildFaults, BuildFaults]
  simp only [cleans_withoutSettings_iff]
  rfl

theorem faults_hasFile_iff {id : Text} {pattern : Pattern} {absent : Settings.FilePresence} :
    (hasFile id pattern absent c.withoutSettings).Faults s ↔ SearchFaults c pattern absent := by
  show (pure absent >>= fun settings => searchProject c.withoutSettings pattern settings :
    Run RuleFault Outcome).Faults s ↔ _
  rw [faults_bind_of_ok (a := absent) rfl]
  exact faults_searchProject_iff

theorem not_faults_metadataReadable : ¬ (metadataReadable c).Faults s := by
  rw [metadataReadable]
  dsimp only
  split
  · exact not_faults_pure _
  · split
    · exact c.not_faults_noteThen _ _ _
    · exact not_faults_pure _

theorem not_faults_usesPropertyTesting {id : Text} :
    ¬ (usesPropertyTesting id c.withoutSettings).Faults s := by
  have hsettings : c.withoutSettings.settingsOf id Settings.PropertyTesting.ofJson {} =
      (pure {} : Run RuleFault Settings.PropertyTesting) := rfl
  rw [usesPropertyTesting, hsettings, faults_bind_of_ok rfl]
  split
  · exact Context.not_faults_noteThen _ _ _ _
  · dsimp only
    split
    · exact Context.not_faults_noteThen _ _ _ _
    · exact not_faults_pure _

end Rules

theorem BuiltIn.faults_evaluate_iff (rule : BuiltIn) (c : Context) (s : Cargo.Script) :
    (rule.evaluate c.withoutSettings).Faults s ↔ rule.FaultsIn c s := by
  cases rule with
  | metadataReadable => exact iff_of_false Rules.not_faults_metadataReadable not_false
  | contributing => exact Rules.faults_hasFile_iff
  | license => exact Rules.faults_hasFile_iff
  | readme => exact Rules.faults_readme_iff.trans Rules.faults_hasFile_iff
  | continuousIntegration => exact Rules.faults_hasContinuousIntegration_iff rfl
  | buildsCleanly =>
    exact (Rules.faults_buildsCleanly_iff rfl).trans Rules.buildFaults_withoutSettings_iff
  | passesTests => exact Rules.faults_passesTests_iff rfl
  | propertyTesting => exact iff_of_false Rules.not_faults_usesPropertyTesting not_false
  | formatter => exact Rules.faults_hasFile_iff
  | sourceControl => exact Rules.faults_underSourceControl_iff rfl

/-- **A built-in rule comes to an outcome**, without settings of its own, exactly if none of the
situations of `BuiltIn.FaultsIn` is given. -/
theorem BuiltIn.evaluates_iff (rule : BuiltIn) (c : Context) (s : Cargo.Script) :
    (∃ o, (rule.evaluate c.withoutSettings s).value = .ok o) ↔ ¬ rule.FaultsIn c s := by
  rw [← rule.faults_evaluate_iff, Faults, not_fails_iff]

/-- A workspace root with a NUL character cannot be resolved, and no search for a file that is not
in the project directory comes to an outcome. -/
theorem BuiltIn.evaluate_nul :
    let c : Context := {
      manifest := .ofText "/p/Cargo.toml"
      metadataResult := .ofMetadata { workspaceRoot := "\x00" } }
    (BuiltIn.license.evaluate c.withoutSettings []).value = .error (.path .nulCharacter) := by
  intro c
  rfl

end ProjectAudit
