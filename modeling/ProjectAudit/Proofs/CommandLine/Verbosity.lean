import ProjectAudit.Proofs.CommandLine.Setup
import ProjectAudit.Proofs.Run.Quiet

/-!
# The wish for notes

Notes tell more of a run than its report does.  To ask for them should be safe: it must not change
what is found, which processes are started, or whether the run fails, and without the wish nothing
of them may show.

A note can be written at every turn of a run, by each of the rules and by the setup before them, and
always next to something that decides how the run goes on.  What keeps the two apart is that the
wish is read in one place, where a note is written.  So the notes can be taken away from a run
afterwards, and what is left is the run that was not asked for any.  For rules this is what their
steps are made for; a check adds the message of its query, and the program the arguments that say
what is wished for.

* `evaluateRules_withoutNotes`, `check_withoutNotes`,
  `CommandLine.CheckArguments.runPrinting_withoutNotes`: rules, a check and a run of the program,
  without their notes.
* `DifferInNotes`: what is the same in two runs that differ in their notes only.
* `verbosity_observational`: the wish for notes changes nothing but the notes.
-/

namespace ProjectAudit

open Run

variable {ε α : Type}

/-! ## Rules -/

theorem Rule.outcome_withoutNotes (rule : Rule) (c : Context) :
    (rule.outcome (c.withVerbose true) : Run ε Outcome).withoutNotes =
      rule.outcome (c.withVerbose false) := by
  rw [outcome, outcome, withoutNotes_bind, withoutNotes_attempt, (rule.stepwise c).withoutNotes]
  congr 1
  funext answer
  rcases answer with fault | (o | v) <;> rfl

/-- **Rules without their notes** are rules that were not asked for notes. -/
theorem evaluateRules_withoutNotes (c : Context) (rules : List Rule) :
    (evaluateRules (c.withVerbose true) rules : Run ε (List Finding)).withoutNotes =
      evaluateRules (c.withVerbose false) rules := by
  induction rules with
  | nil => rfl
  | cons rule rules ih =>
    have hreport : (rule.report (c.withVerbose true) : Run ε Finding).withoutNotes =
        rule.report (c.withVerbose false) := by
      simp only [Rule.report, withoutNotes_bind, withoutNotes_emit_report, withoutNotes_pure,
        rule.outcome_withoutNotes]
    simp only [evaluateRules, withoutNotes_bind, withoutNotes_pure, hreport, ih]

/-- The same for rules that may be the default ones. -/
theorem runRules_withoutNotes (c : Context) (rules : Option (List Rule)) :
    (runRules (c.withVerbose true) rules : Run ε Report).withoutNotes =
      runRules (c.withVerbose false) rules := by
  rw [runRules, runRules, withoutNotes_bind, evaluateRules_withoutNotes]
  rfl

/-! ## Checks -/

/-- The query for metadata writes no notes by itself. -/
theorem queryMetadata_withoutNotes (h : Host) (toolchain : Cargo.Toolchain) (manifest : Path) :
    (queryMetadata h toolchain manifest).withoutNotes = queryMetadata h toolchain manifest :=
  withoutNotes_of_leaves (leaves_queryMetadata _ _ _ (fun _ => rfl) fun _ _ => rfl)

/-- The note of what the query has to say. -/
def Context.noteMessage (c : Context) : Run Failure Unit :=
  if !c.metadataResult.message.isEmpty then c.note c.metadataResult.message else pure ()

/-- The message is noted, and nothing hangs on it. -/
theorem Context.withMessageNoted_eq (c : Context) :
    c.withMessageNoted = c.noteMessage >>= fun _ => pure c := by
  rw [withMessageNoted, noteMessage]
  split <;> rfl

theorem Context.noteMessage_withoutNotes (c : Context) :
    (c.withVerbose true).noteMessage.withoutNotes = (c.withVerbose false).noteMessage := by
  have hsteps : Stepwise [] fun verbose => (c.withVerbose verbose).noteMessage := by
    show Stepwise [] fun verbose =>
      if !c.metadataResult.message.isEmpty then
        (c.withVerbose verbose).note c.metadataResult.message
      else pure ()
    exact .choose (fun _ => .note c _) fun _ => .done ()
  exact hsteps.withoutNotes

/-- A check is a query, the note of what it has to say, and the report of the rules. -/
theorem check_eq (h : Host) (manifest : Path) (rules : Option (List Rule))
    (options : CheckOptions) :
    check h manifest rules options = (do
      let manifest ← Run.ofExcept (manifestIn h manifest)
      let result ← queryMetadata h (options.toolchain.getD (.ofHost h)) manifest
      (options.context h manifest result).noteMessage
      let report ← runRules (options.context h manifest result) rules
      Run.emit (.report report.stats.summary)
      return report) := by
  simp only [check, gatherContext_eq, Context.withMessageNoted_eq, Run.bind_assoc, Run.pure_bind]

/-- **A check without its notes** is a check that was not asked for notes. -/
theorem check_withoutNotes (h : Host) (manifest : Path) (rules : Option (List Rule))
    (options : CheckOptions) :
    (check h manifest rules { options with verbose := true }).withoutNotes =
      check h manifest rules { options with verbose := false } := by
  have hcheck (verbose : Bool) : check h manifest rules { options with verbose } = (do
      let manifest ← Run.ofExcept (manifestIn h manifest)
      let result ← queryMetadata h (options.toolchain.getD (.ofHost h)) manifest
      ((options.context h manifest result).withVerbose verbose).noteMessage
      let report ← runRules ((options.context h manifest result).withVerbose verbose) rules
      Run.emit (.report report.stats.summary)
      return report) := check_eq h manifest rules { options with verbose }
  simp only [hcheck, withoutNotes_bind, withoutNotes_ofExcept, queryMetadata_withoutNotes,
    Context.noteMessage_withoutNotes, runRules_withoutNotes, withoutNotes_emit_report,
    withoutNotes_pure]

/-- The same for a check with the rules of a checklist. -/
theorem checkFromChecklist_withoutNotes (h : Host) (manifest checklist : Path) (strict : Bool)
    (options : CheckOptions) :
    (checkFromChecklist h manifest checklist strict { options with verbose := true }).withoutNotes =
      checkFromChecklist h manifest checklist strict { options with verbose := false } := by
  simp only [checkFromChecklist, withoutNotes_bind, check_withoutNotes,
    (onlyLogs_checklistRules h checklist strict).withoutNotes]

/-! ### What is printed -/

/-- A check has printed its report, or nothing if it has ended without one. -/
structure PrintsReport (ending : Ending Failure Report) : Prop where
  of_ok : ∀ report, ending.value = .ok report →
    Event.fullText ending.events = report.findings.flatMap Finding.line ++ report.stats.summary
  of_error : ∀ failure, ending.value = .error failure → Event.fullText ending.events = []

variable {h : Host} {manifest : Path} {options : CheckOptions}

theorem check_printsReport (hverbose : options.verbose = false) (rules : Option (List Rule))
    (s : Cargo.Script) : PrintsReport (check h manifest rules options s) where
  of_ok _ hreport := (check_printed hverbose hreport).2
  of_error failure hfailure := by
    have hgather : Beside false (gatherContext h manifest options) :=
      hverbose ▸ beside_gatherContext h manifest options
    -- rules come to a report, so it is the gathering that has failed
    rw [check, value_bind_eq_error] at hfailure
    rcases hfailure with hfailure | ⟨c, -, hrest⟩
    · rw [check, bind_of_error hfailure]
      exact hgather.fullText_eq_nil s
    · obtain ⟨report, hreport, -⟩ :=
        runRules_apply c rules (gatherContext h manifest options s).script
      rw [bind_of_ok hreport] at hrest
      cases hrest

theorem checkFromChecklist_printsReport (hverbose : options.verbose = false) (checklist : Path)
    (strict : Bool) (s : Cargo.Script) :
    PrintsReport (checkFromChecklist h manifest checklist strict options s) := by
  have hlogs := onlyLogs_checklistRules h checklist strict
  have hprinted := hlogs.beside.fullText_eq_nil s
  rw [checkFromChecklist]
  cases hrules : (checklistRules h checklist strict s).value with
  | error failure =>
    rw [bind_of_error hrules]
    exact ⟨nofun, fun _ _ => hprinted⟩
  | ok rules =>
    have hcheck : PrintsReport
        (check h manifest (some rules) options (checklistRules h checklist strict s).script) :=
      check_printsReport hverbose _ _
    obtain ⟨hok, herror⟩ := hcheck
    rw [bind_of_ok hrules]
    refine ⟨fun report hreport => ?_, fun failure hfailure => ?_⟩
    · rw [Event.fullText_append, hprinted, List.nil_append]
      exact hok report hreport
    · rw [Event.fullText_append, hprinted, List.nil_append]
      exact herror failure hfailure

/-! ## The program -/

namespace CommandLine.CheckArguments

/-- The same arguments with another answer to the wish for more detail. -/
def withVerbose (a : CheckArguments) (verbose : Bool) : CheckArguments :=
  { a with verbose }

variable (a : CheckArguments) (h : Host) (stamp : Stamp)

/-- **A run without its notes** is a run that was not asked for notes. -/
theorem run_withoutNotes :
    ((a.withVerbose true).run h stamp).withoutNotes = (a.withVerbose false).run h stamp := by
  by_cases hlist : a.listRules = true
  · have hlisting (verbose : Bool) : (a.withVerbose verbose).run h stamp =
        (do Run.emit (.report listing); return (0, h)) := if_pos hlist
    rw [hlisting, hlisting]
    rfl
  · have hrun (verbose : Bool) : (a.withVerbose verbose).run h stamp = (do
        let settings ← Run.ofExcept (a.settings h)
        let rules ← a.chosenRules h
        let report ← check h a.manifest rules { verbose, settings }
        a.close h stamp report) :=
      run_eq_check_bind (a := a.withVerbose verbose) (Bool.eq_false_iff.2 hlist) h stamp
    have hcheck (rules : Option (List Rule)) (settings : RuleSettings) :
        (check h a.manifest rules { verbose := true, settings }).withoutNotes =
          check h a.manifest rules { settings } :=
      check_withoutNotes h a.manifest rules { settings }
    have hclose (report : Report) :
        (a.close h stamp report).withoutNotes = a.close h stamp report := by
      rw [close, withoutNotes_bind, withoutNotes_ofExcept]
      rfl
    rw [hrun true, hrun false]
    simp only [withoutNotes_bind, withoutNotes_ofExcept, (a.onlyLogs_chosenRules h).withoutNotes,
      hcheck, hclose]

theorem runPrinting_withoutNotes :
    ((a.withVerbose true).runPrinting h stamp).withoutNotes =
      (a.withVerbose false).runPrinting h stamp := by
  rw [runPrinting, runPrinting, withoutNotes_bind, withoutNotes_attempt, run_withoutNotes]
  congr 1
  funext answer
  rcases answer with (f | fault | fault | e | l) | ⟨code, host⟩ <;> rfl

end CommandLine.CheckArguments

/-! ## Two runs -/

/-- Two runs differ in their notes only, and the second one has none. -/
structure DifferInNotes (noted plain : Ending ε α) : Prop where
  /-- Both come to the same value, or end with the same failure. -/
  value : noted.value = plain.value
  script : noted.script = plain.script
  /-- The processes, with their arguments and the value of the recursion guard. -/
  calls : Event.calls noted.events = Event.calls plain.events
  log : ∀ least, Event.log least noted.events = Event.log least plain.events
  report : Event.reportText noted.events = Event.reportText plain.events
  notes : Event.noteText plain.events = []
  /-- On a stream that takes both, only the report is left. -/
  text : Event.fullText plain.events = Event.reportText plain.events

/-- A run and the same run without its notes. -/
theorem DifferInNotes.of_withoutNotes {noted plain : Run ε α} (h : noted.withoutNotes = plain)
    (s : Cargo.Script) : DifferInNotes (noted s) (plain s) := by
  subst h
  refine ⟨rfl, rfl, ?_, fun least => ?_, ?_, ?_, ?_⟩
  · exact (Event.calls_withoutNotes _).symm
  · exact (Event.log_withoutNotes _ least).symm
  · exact (Event.reportText_withoutNotes _).symm
  · exact Event.noteText_withoutNotes _
  · exact (Event.fullText_withoutNotes _).trans (Event.reportText_withoutNotes _).symm

open CommandLine in
/-- **The wish for notes changes nothing but the notes.**  For all rules, for a check, with or
without a checklist, and for the program: with notes and without them a run comes to the same
findings or the same failure, starts the same processes and logs the same records.  Without notes,
rules print their lines and nothing else, and a check prints the lines and the summary, or nothing
if it fails. -/
theorem verbosity_observational :
    (∀ (c : Context) (rules : List Rule) (s : Cargo.Script),
      let run := fun verbose =>
        (evaluateRules (c.withVerbose verbose) rules s : Ending Failure (List Finding))
      DifferInNotes (run true) (run false) ∧ ∃ findings, (run false).value = .ok findings ∧
        Event.fullText (run false).events = findings.flatMap Finding.line) ∧
    (∀ (h : Host) (manifest : Path) (options : CheckOptions) (s : Cargo.Script),
      (∀ rules : Option (List Rule),
        let run := fun verbose => check h manifest rules { options with verbose } s
        DifferInNotes (run true) (run false) ∧ PrintsReport (run false)) ∧
      ∀ (checklist : Path) (strict : Bool),
        let run := fun verbose =>
          checkFromChecklist h manifest checklist strict { options with verbose } s
        DifferInNotes (run true) (run false) ∧ PrintsReport (run false)) ∧
    ∀ (h : Host) (stamp : Stamp) (s : Cargo.Script) (a : CheckArguments)
      (arguments : Bool → List Text),
      (∀ verbose, checkGrammar.parse (arguments verbose) = .ok (.command (a.withVerbose verbose))) →
      let run := fun verbose => (a.withVerbose verbose).runPrinting h stamp s
      let ended := fun verbose => checkProgram h s stamp (arguments verbose)
      DifferInNotes (run true) (run false) ∧ (ended true).exit = (ended false).exit ∧
        (ended true).calls = (ended false).calls ∧ (ended true).host = (ended false).host ∧
        (ended false).stdout = Event.reportText (run true).events := by
  refine ⟨fun c rules s => ?_, fun h manifest options s => ⟨fun rules => ?_, ?_⟩,
    fun h stamp s a arguments hparse => ?_⟩
  · obtain ⟨findings, hvalue, -, hprinted⟩ :=
      evaluateRules_printed (ε := Failure) (c := c.withVerbose false) rfl rules s
    exact ⟨.of_withoutNotes (evaluateRules_withoutNotes c rules) s, findings, hvalue, hprinted⟩
  · exact ⟨.of_withoutNotes (check_withoutNotes h manifest rules options) s,
      check_printsReport rfl rules s⟩
  · intro checklist strict
    exact ⟨.of_withoutNotes (checkFromChecklist_withoutNotes h manifest checklist strict options) s,
      checkFromChecklist_printsReport rfl checklist strict s⟩
  · intro run ended
    have hdiffer : DifferInNotes (run true) (run false) :=
      .of_withoutNotes (a.runPrinting_withoutNotes h stamp) s
    simp only [ended, checkProgram_of_parse (hparse _)]
    exact ⟨hdiffer, congrArg (Except.map Prod.fst) hdiffer.value, hdiffer.calls,
      congrArg (hostAfter h) hdiffer.value, hdiffer.text.trans hdiffer.report.symm⟩

open CommandLine in
/-- A project whose tool cannot be started, of which the notes tell. -/
theorem verbosity_observational_notStarted :
    let h : Host := { tree := ⟨[([Text.Utf8.encodeString "Cargo.toml"], .file [])]⟩ }
    let s : Cargo.Script := [("metadata", [.notStarted "busy"])]
    let stamp : Stamp := ⟨"first", "today"⟩
    let a : CheckArguments := {}
    let arguments : Bool → List Text := fun verbose => if verbose then ["-v"] else []
    let ended := fun verbose => checkProgram h s stamp (arguments verbose)
    (∀ verbose, checkGrammar.parse (arguments verbose) = .ok (.command (a.withVerbose verbose))) ∧
      (ended true).exit = (ended false).exit ∧ (ended true).calls = (ended false).calls ∧
      Event.noteText ((a.withVerbose true).runPrinting h stamp s).events ≠ [] := by
  intro h s stamp a arguments ended
  have hparse : ∀ verbose,
      checkGrammar.parse (arguments verbose) = .ok (.command (a.withVerbose verbose)) := by
    intro verbose
    cases verbose <;> rfl
  obtain ⟨-, -, hprogram⟩ := verbosity_observational
  obtain ⟨-, hexit, hcalls, -⟩ := hprogram h stamp s a arguments hparse
  exact ⟨hparse, hexit, hcalls, by decide +kernel⟩

end ProjectAudit
