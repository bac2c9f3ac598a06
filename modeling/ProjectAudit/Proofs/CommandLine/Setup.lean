import ProjectAudit.Proofs.Audit.MetadataQuery
import ProjectAudit.Proofs.Audit.Printed
import ProjectAudit.Proofs.CommandLine.Flaws
import ProjectAudit.Proofs.Evaluation.Turns

/-!
# The setup of a check

A check begins with a setup: it reads the settings, finds and reads a checklist, looks for what the
checklist asks for among the rules, and finds the manifest.  Only then does it ask the tool for
anything or write a line of its report.

So a run is a setup and then an evaluation, and the two halves are what a setup failure is about.
The first half does nothing but log, and the second half cannot end with a setup failure.  That the
failure is the one of the first flaw is then a matter of the first half alone, each of whose steps
fails exactly if there is a flaw of its stage.

* `CommandLine.CheckArguments.run_eq_setup_bind`: a run is a setup and then an evaluation.
* `CommandLine.CheckArguments.firstFlaw_of_setup_eq_setup`: a setup fails with its first flaw.
* `CommandLine.checkProgram_setup`: setup failures are atomic and come in a fixed order.
-/

namespace ProjectAudit

open Run

/-! ## The two halves of a run -/

theorem manifestIn_eq_setup_iff {h : Host} {manifest : Path} {f : SetupFailure} :
    manifestIn h manifest = .error (.setup f) ↔
      h.isFile manifest = .ok false ∧ f = .manifestNotFound manifest := by
  rw [manifestIn]
  rcases h.isFile manifest with fault | (_ | _)
  · simp [mapError_error, bind, Except.bind]
  · simp [mapError_ok, bind, Except.bind, @eq_comm _ f]
  · cases h.resolve manifest with
    | error fault => simp [mapError_error, mapError_ok, bind, Except.bind]
    | ok path => simp [mapError_ok, bind, Except.bind]

/-- The query for metadata ends with no setup failure. -/
theorem queryMetadata_ne_setup (h : Host) (toolchain : Cargo.Toolchain) (manifest : Path)
    (s : Cargo.Script) (f : SetupFailure) :
    (queryMetadata h toolchain manifest s).value ≠ .error (.setup f) := by
  rcases queryMetadata_cases h toolchain manifest s with
    ⟨message, hvalue⟩ | ⟨message, hvalue⟩ | ⟨m, hvalue⟩ | ⟨fault, -, hvalue⟩ |
      ⟨fault, _, _, hvalue, -⟩
  case inr.inr.inr.inl =>
    rw [hvalue]
    cases fault <;> exact nofun
  all_goals
    rw [hvalue]
    exact nofun

/-- Evaluating rules comes to a report. -/
theorem runRules_apply (c : Context) (rules : Option (List Rule)) (s : Cargo.Script) :
    ∃ report, (runRules c rules s : Ending Failure Report).value = .ok report ∧
      (runRules c rules s : Ending Failure Report).events =
        (evaluateRules c (rules.getD Rule.defaults) s : Ending Failure (List Finding)).events := by
  obtain ⟨hvalue, -⟩ := evaluateRules_turns (ε := Failure) c (rules.getD Rule.defaults) s
  rw [runRules, bind_of_ok hvalue]
  exact ⟨_, rfl, List.append_nil _⟩

namespace CommandLine

/-- What a setup comes to. -/
structure Setup where
  settings : RuleSettings
  /-- The rules to be evaluated, if a checklist names them. -/
  rules : Option (List Rule)
  /-- The manifest, with its path resolved. -/
  manifest : Path

namespace CheckArguments

/-- The first half of a run. -/
def setup (a : CheckArguments) (h : Host) : Run Failure Setup := do
  let settings ← Run.ofExcept (a.settings h)
  let rules ← a.chosenRules h
  let manifest ← Run.ofExcept (manifestIn h a.manifest)
  return { settings, rules, manifest }

/-- What the rules of a run are told. -/
def gathering (a : CheckArguments) (h : Host) (p : Setup) : Run Failure Context := do
  let options : CheckOptions := { verbose := a.verbose, settings := p.settings }
  let result ← queryMetadata h (options.toolchain.getD (.ofHost h)) p.manifest
  (options.context h p.manifest result).withMessageNoted

/-- The second half of a run. -/
def evaluation (a : CheckArguments) (h : Host) (stamp : Stamp) (p : Setup) :
    Run Failure (Nat × Host) := do
  let context ← a.gathering h p
  let report ← runRules context p.rules
  Run.emit (.report report.stats.summary)
  let host ← Run.ofExcept (a.saveReport h stamp report)
  return (report.stats.exitCode, host)

/-- The end of a run whose check has come to a report. -/
def close (a : CheckArguments) (h : Host) (stamp : Stamp) (report : Report) :
    Run Failure (Nat × Host) := do
  let host ← Run.ofExcept (a.saveReport h stamp report)
  return (report.stats.exitCode, host)

/-- The run gathers what the rules are told, and evaluates the rules that it is asked for. -/
def ReachesEvaluation (a : CheckArguments) (h : Host) (stamp : Stamp) (s : Cargo.Script) : Prop :=
  ∃ settings selected context before after,
    let gathering := gatherContext h a.manifest { verbose := a.verbose, settings } s
    a.settings h = .ok settings ∧ (a.chosenRules h s).value = .ok selected ∧
      gathering.value = .ok context ∧
      (a.run h stamp s).events = before ++
        (evaluateRules context (selected.getD Rule.defaults) gathering.script :
          Ending Failure (List Finding)).events ++ after

variable {a : CheckArguments} {h host : Host} {stamp : Stamp} {s : Cargo.Script}
  {f : SetupFailure} {p : Setup}

/-- A run that lists no rules is a check with the settings and the rules that it is asked for. -/
theorem run_eq_check_bind (hlist : a.listRules = false) (h : Host) (stamp : Stamp) :
    a.run h stamp = (do
      let settings ← Run.ofExcept (a.settings h)
      let rules ← a.chosenRules h
      let report ← check h a.manifest rules { verbose := a.verbose, settings }
      a.close h stamp report) := by
  rw [run, if_neg (by rw [hlist]; exact Bool.false_ne_true)]
  rfl

/-- **A run is a setup and then an evaluation.** -/
theorem run_eq_setup_bind (hlist : a.listRules = false) (h : Host) (stamp : Stamp) :
    a.run h stamp = a.setup h >>= a.evaluation h stamp := by
  rw [run, if_neg (by rw [hlist]; exact Bool.false_ne_true)]
  simp only [setup, evaluation, gathering, check, gatherContext_eq, Run.bind_assoc, Run.pure_bind]

/-! ### The setup -/

theorem onlyLogs_setup (a : CheckArguments) (h : Host) : OnlyLogs (a.setup h) :=
  (onlyLogs_ofExcept _).bind fun _ => (a.onlyLogs_chosenRules h).bind fun _ =>
    (onlyLogs_ofExcept _).bind fun _ => onlyLogs_pure _

theorem setup_eq_ok (hvalue : (a.setup h s).value = .ok p) :
    a.settings h = .ok p.settings ∧ (a.chosenRules h s).value = .ok p.rules ∧
      manifestIn h a.manifest = .ok p.manifest := by
  obtain ⟨settings, hsettings, hrest⟩ := value_bind_eq_ok.1 hvalue
  obtain ⟨rules, hrules, hrest⟩ := value_bind_eq_ok.1 hrest
  obtain ⟨manifest, hmanifest, hrest⟩ := value_bind_eq_ok.1 hrest
  obtain rfl := Except.ok.inj hrest
  rw [ofExcept_apply] at hsettings hmanifest
  rw [ofExcept_apply] at hrules
  exact ⟨hsettings, hrules, hmanifest⟩

/-- A setup that comes to something has met no flaw. -/
theorem not_flaw_of_setup_eq_ok (hvalue : (a.setup h s).value = .ok p) (stage : SetupStage) :
    ¬ a.Flaw h stage f := by
  obtain ⟨hsettings, hrules, hmanifest⟩ := setup_eq_ok hvalue
  intro hflaw
  cases stage with
  | settings => cases hsettings.symm.trans (settings_eq_setup_iff.2 hflaw)
  | checklist => cases hrules.symm.trans (chosenRules_eq_setup_iff.2 (.inl hflaw))
  | requests => cases hrules.symm.trans (chosenRules_eq_setup_iff.2 (.inr hflaw))
  | manifest =>
    cases hflaw with
    | manifestNotFound hfile =>
      cases hmanifest.symm.trans (manifestIn_eq_setup_iff.2 ⟨hfile, rfl⟩)

/-- **A setup failure is that of the first flaw.** -/
theorem firstFlaw_of_setup_eq_setup (hvalue : (a.setup h s).value = .error (.setup f)) :
    a.FirstFlaw h f := by
  rw [setup, value_bind_eq_error, ofExcept_apply] at hvalue
  rcases hvalue with hsettings | ⟨settings, hsettings, hvalue⟩
  · exact ⟨.settings, settings_eq_setup_iff.1 hsettings, fun _ _ _ => Nat.zero_le _⟩
  have hno : ∀ g, ¬ a.Flaw h .settings g := fun g hg => by
    cases hsettings.symm.trans (settings_eq_setup_iff.2 hg)
  rw [value_bind_eq_error] at hvalue
  rcases hvalue with hrules | ⟨rules, hrules, hvalue⟩
  · rcases chosenRules_eq_setup_iff.1 hrules with hflaw | hflaw
    · refine ⟨.checklist, hflaw, fun other g hg => ?_⟩
      cases other with
      | settings => exact absurd hg (hno g)
      | checklist | requests | manifest => decide
    · refine ⟨.requests, hflaw, fun other g hg => ?_⟩
      cases other with
      | settings => exact absurd hg (hno g)
      | checklist => exact absurd hg hflaw.not_checklist_of_requests
      | requests | manifest => decide
  · rw [value_bind_eq_error, ofExcept_apply] at hvalue
    rcases hvalue with hmanifest | ⟨_, -, hpure⟩
    · obtain ⟨hfile, rfl⟩ := manifestIn_eq_setup_iff.1 hmanifest
      refine ⟨.manifest, .manifestNotFound hfile, fun other g hg => ?_⟩
      cases other with
      | settings => exact absurd hg (hno g)
      | checklist => cases hrules.symm.trans (chosenRules_eq_setup_iff.2 (.inl hg))
      | requests => cases hrules.symm.trans (chosenRules_eq_setup_iff.2 (.inr hg))
      | manifest => decide
    · cases hpure

/-! ### The evaluation -/

theorem gathering_ne_setup (a : CheckArguments) (h : Host) (p : Setup) (s : Cargo.Script)
    (f : SetupFailure) : (a.gathering h p s).value ≠ .error (.setup f) := by
  intro hvalue
  rw [gathering, value_bind_eq_error] at hvalue
  rcases hvalue with hquery | ⟨result, -, hnote⟩
  · exact queryMetadata_ne_setup _ _ _ _ _ hquery
  · rw [value_withMessageNoted] at hnote
    cases hnote

theorem saveReport_ne_setup {report : Report} :
    a.saveReport h stamp report ≠ .error (.setup f) := by
  rw [saveReport]
  cases a.reportFile with
  | none => exact nofun
  | some path =>
    dsimp only
    cases h.withFile path _ with
    | error fault => exact nofun
    | ok host => exact nofun

/-- **An evaluation ends with no setup failure**, whatever the tool replies and the rules do. -/
theorem evaluation_ne_setup (a : CheckArguments) (h : Host) (stamp : Stamp) (p : Setup)
    (s : Cargo.Script) (f : SetupFailure) :
    (a.evaluation h stamp p s).value ≠ .error (.setup f) := by
  intro hvalue
  rw [evaluation, value_bind_eq_error] at hvalue
  rcases hvalue with hgathering | ⟨context, -, hvalue⟩
  · exact a.gathering_ne_setup h p s f hgathering
  obtain ⟨report, hreport, -⟩ := runRules_apply context p.rules (a.gathering h p s).script
  rw [bind_of_ok hreport, value_bind_eq_error] at hvalue
  rcases hvalue with hemit | ⟨-, -, hvalue⟩
  · cases hemit
  rw [value_bind_eq_error, ofExcept_apply] at hvalue
  rcases hvalue with hsave | ⟨host, -, hpure⟩
  · exact saveReport_ne_setup hsave
  · cases hpure

/-- An evaluation for which everything could be gathered evaluates the rules. -/
theorem exists_events_evaluation (stamp : Stamp) {context : Context}
    (hcontext : (a.gathering h p s).value = .ok context) :
    ∃ after, (a.evaluation h stamp p s).events = (a.gathering h p s).events ++
      (evaluateRules context (p.rules.getD Rule.defaults) (a.gathering h p s).script :
        Ending Failure (List Finding)).events ++ after := by
  obtain ⟨report, hreport, hevents⟩ := runRules_apply context p.rules (a.gathering h p s).script
  rw [evaluation, bind_of_ok hcontext, bind_of_ok hreport, hevents, ← List.append_assoc]
  exact ⟨_, rfl⟩

theorem gatherContext_of_setup (hvalue : (a.setup h s).value = .ok p) :
    gatherContext h a.manifest { verbose := a.verbose, settings := p.settings } s =
      a.gathering h p s := by
  obtain ⟨-, -, hmanifest⟩ := setup_eq_ok hvalue
  rw [gatherContext_eq, hmanifest]
  rfl

/-! ### The run -/

/-- A run that ends with a setup failure has not come past its setup. -/
theorem setup_of_run_eq_setup (hlist : a.listRules = false)
    (hvalue : (a.run h stamp s).value = .error (.setup f)) :
    (a.setup h s).value = .error (.setup f) ∧
      (a.run h stamp s).events = (a.setup h s).events := by
  rw [run_eq_setup_bind hlist, value_bind_eq_error] at hvalue
  rcases hvalue with hsetup | ⟨p, -, hevaluation⟩
  · refine ⟨hsetup, ?_⟩
    rw [run_eq_setup_bind hlist, bind_of_error hsetup]
  · exact absurd hevaluation (a.evaluation_ne_setup h stamp p _ f)

/-- A run that comes to its end has come past its setup, and has evaluated the rules. -/
theorem reachesEvaluation_of_run_eq_ok (hlist : a.listRules = false) {code : Nat}
    (hvalue : (a.run h stamp s).value = .ok (code, host)) :
    (∃ p, (a.setup h s).value = .ok p) ∧ a.ReachesEvaluation h stamp s := by
  rw [run_eq_setup_bind hlist] at hvalue
  obtain ⟨p, hsetup, hevaluation⟩ := value_bind_eq_ok.1 hvalue
  rw [(a.onlyLogs_setup h).script_eq] at hevaluation
  obtain ⟨context, hcontext, -⟩ := value_bind_eq_ok.1 hevaluation
  obtain ⟨hsettings, hrules, -⟩ := setup_eq_ok hsetup
  obtain ⟨after, hevents⟩ := exists_events_evaluation stamp hcontext
  have hgathering := gatherContext_of_setup hsetup
  refine ⟨⟨p, hsetup⟩, p.settings, p.rules, context,
    (a.setup h s).events ++ (a.gathering h p s).events, after, hsettings, hrules, ?_, ?_⟩
  · rw [hgathering, hcontext]
  · rw [run_eq_setup_bind hlist, bind_of_ok hsetup, (a.onlyLogs_setup h).script_eq, hevents,
      hgathering]
    simp only [List.append_assoc]

/-- A setup failure is printed after what the run has left. -/
theorem runPrinting_of_setup (hvalue : (a.run h stamp s).value = .error (.setup f)) :
    a.runPrinting h stamp s = ⟨.ok (f.exitCode, h), (a.run h stamp s).script,
      (a.run h stamp s).events ++ [.report (f.message h.libraries.wording ++ "\n")]⟩ := by
  rw [runPrinting, attempt_bind_apply, hvalue]
  rfl

/-- A failure of another kind ends the program. -/
theorem runPrinting_of_failure {failure : Failure}
    (hvalue : (a.run h stamp s).value = .error failure) (hother : ∀ f, failure ≠ .setup f) :
    a.runPrinting h stamp s =
      ⟨.error failure, (a.run h stamp s).script, (a.run h stamp s).events⟩ := by
  have hevents := List.append_nil (a.run h stamp s).events
  rw [runPrinting, attempt_bind_apply, hvalue]
  cases failure with
  | setup f => exact absurd rfl (hother f)
  | _ => exact congrArg (Ending.mk _ _) hevents

/-- A run that comes to its end is all that the program does. -/
theorem runPrinting_of_ok {ended : Nat × Host} (hvalue : (a.run h stamp s).value = .ok ended) :
    a.runPrinting h stamp s = ⟨.ok ended, (a.run h stamp s).script, (a.run h stamp s).events⟩ := by
  have hevents := List.append_nil (a.run h stamp s).events
  rw [runPrinting, attempt_bind_apply, hvalue]
  exact congrArg (Ending.mk _ _) hevents

end CheckArguments

/-- The host that is left when the program has ended. -/
def hostAfter (h : Host) : Except Failure (Nat × Host) → Host
  | .ok (_, host) => host
  | .error _ => h

/-- How the program ends is read off its run. -/
theorem checkProgram_of_parse {a : CheckArguments} {arguments : List Text}
    (hparse : checkGrammar.parse arguments = .ok (.command a)) (h : Host) (stamp : Stamp)
    (s : Cargo.Script) :
    let ending := a.runPrinting h stamp s
    checkProgram h s stamp arguments =
      { exit := ending.value.map (·.1)
        stdout := Event.fullText ending.events
        stderr := logText a.logLevel ending.events
        calls := Event.calls ending.events
        host := hostAfter h ending.value } := by
  rw [checkProgram, Grammar.conclude, hparse]
  rfl

/-- What a run that comes to an exit code leaves is what its program ends with. -/
theorem checkProgram_of_runPrinting {a : CheckArguments} {h host : Host} {stamp : Stamp}
    {s script : Cargo.Script} {arguments : List Text} {code : Nat} {events : List Event}
    (hparse : checkGrammar.parse arguments = .ok (.command a))
    (hrun : a.runPrinting h stamp s = ⟨.ok (code, host), script, events⟩) :
    let ended := checkProgram h s stamp arguments
    ended.exit = .ok code ∧ ended.host = host ∧ ended.stdout = Event.fullText events ∧
      ended.calls = Event.calls events := by
  rw [checkProgram_of_parse hparse, hrun]
  exact ⟨rfl, rfl, rfl, rfl⟩

/-- **Setup failures are atomic and come in a fixed order.**  If a run that lists no rules ends with
a setup failure, then it is the failure of the first flaw, its message is all that is printed and
its code is the exit code, no process has been started, and the files are as they were.  Unless a
run ends with a failure of another kind, it ends with that of the first flaw if there is a flaw, and
evaluates the rules if there is none. -/
theorem checkProgram_setup {a : CheckArguments} {h : Host} {stamp : Stamp} {s : Cargo.Script}
    {arguments : List Text} (hparse : checkGrammar.parse arguments = .ok (.command a))
    (hlist : a.listRules = false) :
    let run := a.run h stamp s
    let ended := checkProgram h s stamp arguments
    (∀ f, run.value = .error (.setup f) →
      a.FirstFlaw h f ∧ ended.exit = .ok f.exitCode ∧
        ended.stdout = f.message h.libraries.wording ++ "\n" ∧ ended.calls = [] ∧
        ended.host = h) ∧
    ((∀ failure, run.value = .error failure → ∃ f, failure = .setup f) →
      (∀ f, a.FirstFlaw h f → run.value = .error (.setup f)) ∧
      ((∀ stage f, ¬ a.Flaw h stage f) → a.ReachesEvaluation h stamp s)) := by
  intro run ended
  constructor
  · intro f hvalue
    obtain ⟨hsetup, hevents⟩ := CheckArguments.setup_of_run_eq_setup hlist hvalue
    have hprinting := CheckArguments.runPrinting_of_setup hvalue
    obtain ⟨hexit, hhost, hstdout, hcalls⟩ := checkProgram_of_runPrinting hparse hprinting
    have hprinted := (a.onlyLogs_setup h).beside.fullText_eq_nil s
    refine ⟨CheckArguments.firstFlaw_of_setup_eq_setup hsetup, hexit, ?_, ?_, hhost⟩
    · show (checkProgram h s stamp arguments).stdout = _
      rw [hstdout, hevents, Event.fullText_append, hprinted]
      simp [Event.fullText]
    · show (checkProgram h s stamp arguments).calls = _
      rw [hcalls, hevents, Event.calls_append, (a.onlyLogs_setup h).calls_eq_nil]
      rfl
  · intro hfailures
    cases hvalue : run.value with
    | ok ended =>
      obtain ⟨⟨p, hsetup⟩, hreaches⟩ := CheckArguments.reachesEvaluation_of_run_eq_ok hlist hvalue
      refine ⟨?_, fun _ => hreaches⟩
      rintro f ⟨stage, hflaw, -⟩
      exact absurd hflaw (CheckArguments.not_flaw_of_setup_eq_ok hsetup stage)
    | error failure =>
      obtain ⟨g, rfl⟩ := hfailures failure hvalue
      have hfirst : a.FirstFlaw h g := CheckArguments.firstFlaw_of_setup_eq_setup
        (CheckArguments.setup_of_run_eq_setup hlist hvalue).1
      refine ⟨fun f hf => ?_, fun hno => ?_⟩
      · rw [hf.unique hfirst]
      · obtain ⟨stage, hflaw, -⟩ := hfirst
        exact absurd hflaw (hno stage g)

/-- Where there is neither the checklist that is asked for nor a manifest, the checklist is
missed. -/
theorem checkProgram_setup_empty :
    let a : CheckArguments := { checklist := some (.ofText "rules") }
    let stamp : Stamp := ⟨"first", "today"⟩
    let arguments : List Text := ["--culture-checklist-path", "rules"]
    let f : SetupFailure := .checklistNotFound (.ofText "rules")
    checkGrammar.parse arguments = .ok (.command a) ∧ a.listRules = false ∧
      (∀ failure, (a.run {} stamp []).value = .error failure → ∃ f, failure = .setup f) ∧
      a.Flaw {} .manifest (.manifestNotFound a.manifest) ∧ a.FirstFlaw {} f ∧
      (a.run {} stamp []).value = .error (.setup f) ∧
      (checkProgram {} [] stamp arguments).exit = .ok 20 ∧
      (checkProgram {} [] stamp arguments).stdout =
        "Could not find requested rules checklist file, rules\n" := by
  intro a stamp arguments f
  have hparse : checkGrammar.parse arguments = .ok (.command a) := by rfl
  have hrun : (a.run {} stamp []).value = .error (.setup f) := by rfl
  have hfailures : ∀ failure, (a.run {} stamp []).value = .error failure →
      ∃ f, failure = .setup f := fun failure hfailure =>
    ⟨f, (Except.error.inj (hrun.symm.trans hfailure)).symm⟩
  have hmanifest : a.Flaw {} .manifest (.manifestNotFound a.manifest) := .manifestNotFound (by rfl)
  obtain ⟨hatomic, hends⟩ := checkProgram_setup (h := {}) (s := []) hparse rfl
  obtain ⟨hfirst, hexit, hstdout, -⟩ := hatomic f hrun
  exact ⟨hparse, rfl, hfailures, hmanifest, hfirst, (hends hfailures).1 f hfirst, hexit,
    hstdout.trans (by decide +kernel)⟩

end CommandLine

end ProjectAudit
