import ProjectAudit.CommandLine.Program
import ProjectAudit.Proofs.Audit.Printed
import ProjectAudit.Proofs.Audit.ReportFile
import ProjectAudit.Proofs.CommandLine.Setup
import ProjectAudit.Proofs.Files.Writing
import ProjectAudit.Proofs.Run.Faulting
import ProjectAudit.Proofs.Text.Utf8

/-!
# All views of a run agree

A run shows what it found in four places: in the lines that it prints, in the summary below them, in
its exit code, and in the report file if one is asked for.  All of them are made from the same
findings.  What is printed is made while the rules are evaluated, the rest when that is done.

* `CommandLine.Shows`: the views of a list of findings.
* `CommandLine.checkProgram_shows`: a run without notes that comes to a report shows the findings of
  that report.
-/

namespace ProjectAudit

open Run

theorem Stats.summary_ofFindings (findings : List Finding) :
    (ofFindings findings).summary =
      "culture result: " ++
        (if ∀ f ∈ findings, f.outcome = .success then Outcome.success.label
          else Outcome.failure.label) ++
        ". " ++ Text.ofInt (count .success findings) ++ " passed. " ++
        Text.ofInt (count .failure findings) ++ " failed. " ++
        Text.ofInt (count .undetermined findings) ++ " undetermined.\n" := by
  rw [summary]
  simp only [← isSuccess_iff]
  rfl

namespace CommandLine

/-- A program ended with the given findings for the given rules, and shows them everywhere. -/
structure Shows (rules : List Rule) (findings : List Finding) (reportFile : Option Path)
    (ended : ProgramEnd) : Prop where
  /-- There is a finding for each rule, in the order of the rules. -/
  descriptions : findings.map Finding.description = rules.map Rule.description
  /-- The printed text: a line for each finding, and the summary. -/
  stdout : ended.stdout =
    (findings.flatMap fun f => (f.description ++ " ... " ++ f.outcome.label ++ "\n" : Text)) ++
      ("culture result: " ++ (if ∀ f ∈ findings, f.outcome = .success then "ok" else "FAILED") ++
        ". " ++ Text.ofInt (Stats.count .success findings) ++ " passed. " ++
        Text.ofInt (Stats.count .failure findings) ++ " failed. " ++
        Text.ofInt (Stats.count .undetermined findings) ++ " undetermined.\n" : Text)
  /-- The counts add up to the number of rules. -/
  counts : Stats.count .success findings + Stats.count .failure findings +
    Stats.count .undetermined findings = rules.length
  /-- The exit code. -/
  exit : ∃ code, ended.exit = .ok code ∧
    (code = 1 ↔ ∃ f ∈ findings, f.outcome = .failure) ∧
    (code = 2 ↔ (¬ ∃ f ∈ findings, f.outcome = .failure) ∧
      ∃ f ∈ findings, f.outcome = .undetermined) ∧
    (code = 0 ↔ ∀ f ∈ findings, f.outcome = .success)
  /-- The report file, read as the JSON text that it holds. -/
  file : ∀ path, reportFile = some path → ∃ content text v,
    ended.host.fileContent path = .ok content ∧ Text.Utf8.decode content = .ok text ∧
    Json.read text = .ok v ∧
    (∃ items, v.field? "results" = some (.arr items) ∧
      items.map Finding.ofJson = findings.map .valid) ∧
    ∃ counts, v.field? "stats" = some counts ∧
      Stats.ofJson counts = .valid
        ⟨Stats.count .success findings, Stats.count .failure findings,
          Stats.count .undetermined findings⟩

variable {a : CheckArguments} {h host : Host} {stamp : Stamp} {s : Cargo.Script} {code : Nat}

/-! ## The run behind a program -/

/-- The steps of a run that evaluates rules. -/
theorem CheckArguments.run_eq_ok (hlist : a.listRules = false)
    (hrun : (a.run h stamp s).value = .ok (code, host)) :
    ∃ settings selected report, a.settings h = .ok settings ∧
      (a.chosenRules h s).value = .ok selected ∧
      (check h a.manifest selected { verbose := a.verbose, settings } s).value = .ok report ∧
      code = report.stats.exitCode ∧ a.saveReport h stamp report = .ok host ∧
      Event.fullText (a.run h stamp s).events = Event.fullText
        (check h a.manifest selected { verbose := a.verbose, settings } s).events := by
  rw [run, if_neg (by rw [hlist]; exact Bool.false_ne_true)] at hrun ⊢
  obtain ⟨settings, hsettings, hrest⟩ := value_bind_eq_ok.1 hrun
  obtain ⟨selected, hselected, hrest⟩ := value_bind_eq_ok.1 hrest
  obtain ⟨report, hreport, hrest⟩ := value_bind_eq_ok.1 hrest
  obtain ⟨saved, hsaved, hrest⟩ := value_bind_eq_ok.1 hrest
  obtain ⟨rfl, rfl⟩ := Prod.mk.inj (Except.ok.inj hrest)
  refine ⟨settings, selected, report, ?_, ?_, ?_, rfl, ?_, ?_⟩
  · rwa [ofExcept_apply] at hsettings
  · rwa [ofExcept_apply] at hselected
  · rwa [ofExcept_apply, (a.onlyLogs_chosenRules h).script_eq] at hreport
  · rwa [ofExcept_apply] at hsaved
  · rw [bind_of_ok hsettings, bind_of_ok hselected, bind_of_ok hreport, bind_of_ok hsaved]
    have hchosen := (a.onlyLogs_chosenRules h).beside.fullText_eq_nil s
    simp only [Event.fullText_append, ofExcept_apply, pure_apply, hchosen,
      (a.onlyLogs_chosenRules h).script_eq]
    simp [Event.fullText]

/-- A run that comes to an end is what the program prints. -/
theorem checkProgram_of_run {arguments : List Text}
    (hparse : checkGrammar.parse arguments = .ok (.command a))
    (hrun : (a.run h stamp s).value = .ok (code, host)) :
    let ended := checkProgram h s stamp arguments
    ended.exit = .ok code ∧ ended.host = host ∧
      ended.stdout = Event.fullText (a.run h stamp s).events := by
  obtain ⟨hexit, hhost, hstdout, -⟩ :=
    checkProgram_of_runPrinting hparse (CheckArguments.runPrinting_of_ok hrun)
  exact ⟨hexit, hhost, hstdout⟩

/-- The file that a run writes is read back as its report. -/
theorem CheckArguments.read_saveReport {report : Report} {path : Path}
    (hpath : a.reportFile = some path) (hsaved : a.saveReport h stamp report = .ok host)
    (hplain : ∀ f ∈ report.findings, f.description.fused = f.description)
    (hlength : Text.isWritable report.findings.length = true) :
    ∃ content text v, host.fileContent path = .ok content ∧
      Text.Utf8.decode content = .ok text ∧ Json.read text = .ok v ∧
      (∃ items, v.field? "results" = some (.arr items) ∧
        items.map Finding.ofJson = report.findings.map .valid) ∧
      ∃ counts, v.field? "stats" = some counts ∧ Stats.ofJson counts = .valid report.stats := by
  rw [saveReport, hpath] at hsaved
  have hwritten := mapError_eq_ok.1 hsaved
  obtain ⟨v, hread, hresults, hstats⟩ :=
    Report.read_toJson hplain hlength stamp.runId stamp.generatedAt
  exact ⟨_, _, v, Host.fileContent_withFile hwritten, Text.Utf8.decode_encodeString _, hread,
    hresults, hstats⟩

/-! ## The views -/

/-- **All views of a run agree.**  If a run that lists no rules and writes no notes comes to its
end, then it has found the settings and the rules, and checked the project with them, and the
program shows the findings of that check: in its lines and its summary, in its exit code, and in the
report file if there is one. -/
theorem checkProgram_shows {arguments : List Text}
    (hparse : checkGrammar.parse arguments = .ok (.command a)) (hlist : a.listRules = false)
    (hverbose : a.verbose = false) (hrun : (a.run h stamp s).value = .ok (code, host)) :
    ∃ settings selected report, a.settings h = .ok settings ∧
      (a.chosenRules h s).value = .ok selected ∧
      (check h a.manifest selected { settings } s).value = .ok report ∧
      Shows (selected.getD Rule.defaults) report.findings a.reportFile
        (checkProgram h s stamp arguments) := by
  obtain ⟨settings, selected, report, hsettings, hselected, hreport, hcode, hsaved, hprinted⟩ :=
    CheckArguments.run_eq_ok hlist hrun
  obtain ⟨hexit, hhost, hstdout⟩ := checkProgram_of_run hparse hrun
  rw [hverbose] at hreport hprinted
  obtain ⟨hdescriptions, hlines⟩ := check_printed rfl hreport
  have hsublist := CheckArguments.sublist_of_chosenRules hselected
  have hlength : report.findings.length = (selected.getD Rule.defaults).length := by
    simpa only [List.length_map] using congrArg List.length hdescriptions
  refine ⟨settings, selected, report, hsettings, hselected, hreport, hdescriptions, ?_, ?_, ?_, ?_⟩
  · rw [hstdout, hprinted, hlines, Report.stats, Stats.summary_ofFindings]
    rfl
  · rw [Stats.count_add_count_add_count, hlength]
  · refine ⟨code, hexit, ?_⟩
    rw [hcode]
    exact ⟨Stats.exitCode_eq_one_iff, Stats.exitCode_eq_two_iff, Stats.exitCode_eq_zero_iff⟩
  · intro path hpath
    rw [hhost]
    refine CheckArguments.read_saveReport hpath hsaved (fun f hf => ?_) ?_
    · have hmem : f.description ∈ (selected.getD Rule.defaults).map Rule.description :=
        hdescriptions ▸ List.mem_map_of_mem hf
      obtain ⟨rule, hrule, hdescription⟩ := List.mem_map.1 hmem
      obtain ⟨plain, hplain⟩ := Rule.description_of_mem_available (hsublist.subset hrule)
      rw [← hdescription, hplain]
      exact Json.fused_ofString plain
    · exact Text.isWritable_of_le (hlength ▸ hsublist.length_le) Rule.isWritable_length_available

/-- A project without a readme, outside of source control, and a report file. -/
theorem checkProgram_shows_written :
    let checklist := "Should be under source control.\n" ++
      "Should have a README.md file in the project directory."
    let h : Host := { tree := ⟨[([Text.Utf8.encodeString "Cargo.toml"], .file []),
      ([Text.Utf8.encodeString ".culture"], .file (Text.Utf8.encodeString checklist))]⟩ }
    let a : CheckArguments := { reportFile := some (.ofText "report.json") }
    let s : Cargo.Script := [("metadata", [.notStarted "busy"])]
    let stamp : Stamp := ⟨"first", "today"⟩
    let arguments : List Text := ["--json-out", "report.json"]
    checkGrammar.parse arguments = .ok (.command a) ∧ a.listRules = false ∧ a.verbose = false ∧
      ∃ code host, (a.run h stamp s).value = .ok (code, host) ∧
        ∃ selected findings, (a.chosenRules h s).value = .ok selected ∧
          Shows (selected.getD Rule.defaults) findings a.reportFile
            (checkProgram h s stamp arguments) := by
  intro checklist h a s stamp arguments
  have hparse : checkGrammar.parse arguments = .ok (.command a) := by rfl
  have hends : ¬ Fails (a.run h stamp s).value := by decide +kernel
  obtain ⟨⟨code, host⟩, hrun⟩ := not_fails_iff.1 hends
  obtain ⟨settings, selected, report, -, hselected, -, hshows⟩ :=
    checkProgram_shows hparse rfl rfl hrun
  exact ⟨hparse, rfl, rfl, code, host, hrun, selected, report.findings, hselected, hshows⟩

end CommandLine

end ProjectAudit
