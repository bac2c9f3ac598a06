import ProjectAudit.Proofs.CommandLine.Listing
import ProjectAudit.Proofs.CommandLine.Setup

/-!
# The ways to start a check

A check can be started by the command or by a call of its own, with a checklist or with the default
rules.  The command reads its settings and looks for a checklist before anything else, and it writes
a report file and ends with an exit code, so its run is longer than that of a check.  But between
what it does before and what it does after, it is the same check: whatever the check comes to, the
command shows it and nothing else.

The default rules are all rules that a checklist may name, but for the optional ones, and they stand
in the order of the catalog.  So a checklist that names each of them selects the same list, in which
order and how often it may name them, and the check that follows is the same run.

* `NameExactly.checkFromChecklist_eq`: a checklist of the default rules.
* `CommandLine.CheckArguments.run_eq_checkFromChecklist_bind`,
  `CommandLine.CheckArguments.run_eq_checkDefault_bind`: a run of the command is a check and its
  close.
* `CommandLine.CheckArguments.presentation`: what the program shows of a check.
* `CommandLine.entryPoints_agree`: all ways to start a check agree.
-/

namespace ProjectAudit

open Run

/-! ## A checklist of the default rules -/

/-- A file holds the given lines, in one of their layouts. -/
def HoldsLines (h : Host) (path : Path) (lines : List Text) : Prop :=
  ∃ content : String, h.fileContent path = .ok (Text.Utf8.encodeString content) ∧
    LaidOut lines content

/-- The lines are the descriptions of the rules, in any order and as often as one likes. -/
def NameExactly (lines : List Text) (rules : List Rule) : Prop :=
  ∀ line, line ∈ lines ↔ ∃ rule ∈ rules, rule.description = line

/-- What a file is read from is a file. -/
theorem Host.isFile_of_fileContent {h : Host} {path : Path} {content : List UInt8}
    (hcontent : h.fileContent path = .ok content) : h.isFile path = .ok true := by
  rw [fileContent] at hcontent
  rw [isFile, holdsAt]
  cases hfind : h.find path with
  | error fault =>
    rw [hfind] at hcontent
    cases hcontent
  | ok l =>
    rw [hfind] at hcontent
    simp only [bind, Except.bind] at hcontent
    show Except.ok ((h.tree.node? l).any isFileNode) = .ok true
    split at hcontent
    · rename_i hnode
      rw [hnode]
      rfl
    · cases hcontent

theorem HoldsLines.isFile {h : Host} {path : Path} {lines : List Text}
    (hfile : HoldsLines h path lines) : h.isFile path = .ok true := by
  obtain ⟨content, hcontent, -⟩ := hfile
  exact Host.isFile_of_fileContent hcontent

namespace NameExactly

variable {h : Host} {path : Path} {lines : List Text} (hlines : NameExactly lines Rule.defaults)
include hlines

/-- Such lines select the default rules. -/
theorem filter_available :
    (Rule.available.filter fun rule => lines.contains rule.description) = Rule.defaults := by
  have hmem (rule : BuiltIn) :
      lines.contains (Rule.builtIn rule).description = decide (rule ∈ BuiltIn.defaults) := by
    rw [Bool.eq_iff_iff, List.contains_iff_mem, decide_eq_true_iff, hlines, Rule.description,
      BuiltIn.exists_defaults_iff]
  rw [Rule.available, List.filter_map, Rule.defaults]
  congr 1
  simp only [Function.comp_def, hmem]
  decide

/-- Such lines stand for themselves in a checklist. -/
theorem isEntry : ∀ line ∈ lines, IsEntry line := by
  intro line hline
  obtain ⟨_, hmem, rfl⟩ := (hlines line).1 hline
  obtain ⟨rule, hrule, rfl⟩ := List.mem_map.1 hmem
  have hentry := rule.isEntry_listedLine
  rwa [BuiltIn.listedLine_of_mem_defaults hrule] at hentry

/-- A checklist of the default rules does nothing but log what it selects. -/
theorem checklistRules_eq (hfile : HoldsLines h path lines) (strict : Bool) :
    checklistRules h path strict = (do
      Run.log .debug .check ("Checklist " ++ path.text ++ " selected " ++
        toString Rule.defaults.length ++ " rule(s)")
      return Rule.defaults) := by
  obtain ⟨content, hcontent, hlaid⟩ := hfile
  have hknown : ∀ line ∈ lines, ∃ rule ∈ Rule.available, rule.description = line := by
    intro line hline
    obtain ⟨rule, hrule, hdescription⟩ := (hlines line).1 hline
    exact ⟨rule, Rule.defaults_sublist_available.subset hrule, hdescription⟩
  rw [checklistRules_eq_of_known (readChecklist_of_laidOut hcontent hlaid hlines.isEntry) hknown,
    hlines.filter_available]

/-- **A check with a checklist of the default rules** is a check with the default rules, once what
the checklist selects has been logged. -/
theorem checkFromChecklist_eq (hfile : HoldsLines h path lines) (manifest : Path) (strict : Bool)
    (options : CheckOptions) :
    checkFromChecklist h manifest path strict options = (do
      Run.log .debug .check ("Checklist " ++ path.text ++ " selected " ++
        toString Rule.defaults.length ++ " rule(s)")
      checkDefault h manifest options) := by
  rw [checkFromChecklist, hlines.checklistRules_eq hfile]
  rfl

end NameExactly

/-! ## The command -/

namespace CommandLine

namespace CheckArguments

variable {a : CheckArguments} {h : Host} {settings : RuleSettings}

theorem chosenChecklist_of_isFile {path : Path} (hpath : a.checklist = some path)
    (hfile : h.isFile path = .ok true) : a.chosenChecklist h = .ok (some path) := by
  simp only [chosenChecklist, hpath, hfile]
  rfl

theorem chosenChecklist_of_none (hnone : a.checklist = none)
    (hfound : findChecklist h (.ofText checklistName) = .ok none) :
    a.chosenChecklist h = .ok none := by
  rw [chosenChecklist, hnone, hfound]
  rfl

/-- A run of the command with a checklist is a check with the same checklist, and its close. -/
theorem run_eq_checkFromChecklist_bind (hlist : a.listRules = false)
    (hsettings : a.settings h = .ok settings) {path : Path}
    (hchecklist : a.chosenChecklist h = .ok (some path)) (stamp : Stamp) :
    a.run h stamp =
      checkFromChecklist h a.manifest path a.strict { verbose := a.verbose, settings } >>=
        a.close h stamp := by
  have hchosen : a.chosenRules h = (do return some (← checklistRules h path a.strict)) := by
    rw [chosenRules, hchecklist]
    rfl
  rw [run_eq_check_bind hlist, hsettings, hchosen, checkFromChecklist]
  simp only [Run.bind_assoc, Run.pure_bind]
  rfl

/-- A run of the command that finds no checklist is a check with the default rules, and its
close. -/
theorem run_eq_checkDefault_bind (hlist : a.listRules = false)
    (hsettings : a.settings h = .ok settings) (hchecklist : a.chosenChecklist h = .ok none)
    (stamp : Stamp) :
    a.run h stamp =
      checkDefault h a.manifest { verbose := a.verbose, settings } >>= a.close h stamp := by
  have hchosen : a.chosenRules h = pure none := by
    rw [chosenRules, hchecklist]
    rfl
  rw [run_eq_check_bind hlist, hsettings, hchosen]
  rfl

/-- How the program ends when its check has ended: with a setup failure, of which it prints the
wording, with another failure, or with the exit code of the report once that is saved. -/
def conclusion (a : CheckArguments) (h : Host) (stamp : Stamp) :
    Except Failure Report → Except Failure Nat × Host × Text
  | .error (.setup f) => (.ok f.exitCode, h, f.message h.libraries.wording ++ "\n")
  | .error failure => (.error failure, h, [])
  | .ok report =>
    match a.saveReport h stamp report with
    | .ok host => (.ok report.stats.exitCode, host, [])
    | .error failure => (.error failure, h, [])

/-- What the program shows of a check: what the check has printed, logged and started, and its own
conclusion. -/
def presentation (a : CheckArguments) (h : Host) (stamp : Stamp)
    (checked : Ending Failure Report) : ProgramEnd :=
  let (exit, host, last) := a.conclusion h stamp checked.value
  { exit, host
    stdout := Event.fullText checked.events ++ last
    stderr := logText a.logLevel checked.events
    calls := Event.calls checked.events }

theorem close_apply (report : Report) (stamp : Stamp) (s : Cargo.Script) :
    a.close h stamp report s =
      ⟨(a.saveReport h stamp report).map fun host => (report.stats.exitCode, host), s, []⟩ := by
  rw [close, bind_apply, ofExcept_apply]
  cases a.saveReport h stamp report <;> rfl

/-- **A program whose run is a check and its close shows the check.** -/
theorem checkProgram_eq_presentation {arguments : List Text} {x : Run Failure Report}
    {stamp : Stamp} (hparse : checkGrammar.parse arguments = .ok (.command a))
    (hrun : a.run h stamp = x >>= a.close h stamp) (s : Cargo.Script) :
    checkProgram h s stamp arguments = a.presentation h stamp (x s) := by
  rw [checkProgram_of_parse hparse, presentation]
  cases hvalue : (x s).value with
  | error failure =>
    have hfailed : a.run h stamp s = ⟨.error failure, (x s).script, (x s).events⟩ := by
      rw [hrun, bind_of_error hvalue]
    cases failure with
    | setup f =>
      rw [runPrinting_of_setup (by rw [hfailed]), hfailed]
      simp [conclusion, hostAfter, Except.map, Event.fullText, logText, Event.log, Event.calls]
    | _ =>
      rw [runPrinting_of_failure (by rw [hfailed]) (fun _ hf => by cases hf), hfailed]
      simp [conclusion, hostAfter, Except.map]
  | ok report =>
    have hclosed : a.run h stamp s =
        ⟨(a.saveReport h stamp report).map fun host => (report.stats.exitCode, host),
          (x s).script, (x s).events⟩ := by
      rw [hrun, bind_of_ok hvalue, close_apply, List.append_nil]
    cases hsave : a.saveReport h stamp report with
    | ok host =>
      rw [hsave] at hclosed
      rw [runPrinting_of_ok (by rw [hclosed]; rfl), hclosed]
      simp [conclusion, hostAfter, hsave, Except.map]
    | error failure =>
      rw [hsave] at hclosed
      have hother : ∀ f, failure ≠ .setup f := fun f hf =>
        saveReport_ne_setup (hsave.trans (congrArg Except.error hf))
      rw [runPrinting_of_failure (by rw [hclosed]; rfl) hother, hclosed]
      simp [conclusion, hostAfter, hsave, Except.map]

end CheckArguments

/-- **All ways to start a check agree.**  The command with a checklist that is a file shows what a
check with that checklist comes to, and the command that finds no checklist shows what a check with
the default rules comes to: the same text, log and processes, the same failure, and the exit code
and the file of the same report.  A checklist that names exactly the default rules, in any order and
any layout and as often as one likes, makes no difference to either but for one record for
debugging, whether it is followed strictly or not. -/
theorem entryPoints_agree {a : CheckArguments} {h : Host} {settings : RuleSettings}
    {arguments : List Text} (hparse : checkGrammar.parse arguments = .ok (.command a))
    (hlist : a.listRules = false) (hsettings : a.settings h = .ok settings) (stamp : Stamp)
    (s : Cargo.Script) :
    let options : CheckOptions := { verbose := a.verbose, settings }
    let ended := checkProgram h s stamp arguments
    let default := a.presentation h stamp (checkDefault h a.manifest options s)
    (∀ path, a.checklist = some path → h.isFile path = .ok true →
      ended = a.presentation h stamp
        (checkFromChecklist h a.manifest path a.strict options s)) ∧
    (a.checklist = none → findChecklist h (.ofText checklistName) = .ok none → ended = default) ∧
    ∀ path lines, HoldsLines h path lines → NameExactly lines Rule.defaults →
      (a.checklist = some path → ended.exit = default.exit ∧ ended.stdout = default.stdout ∧
        ended.calls = default.calls ∧ ended.host = default.host) ∧
      ∀ (manifest : Path) (strict : Bool) (options : CheckOptions) (s : Cargo.Script),
        let listed := checkFromChecklist h manifest path strict options s
        let plain := checkDefault h manifest options s
        listed.value = plain.value ∧ listed.script = plain.script ∧
          Event.fullText listed.events = Event.fullText plain.events ∧
          Event.calls listed.events = Event.calls plain.events ∧
          Event.log .info listed.events = Event.log .info plain.events := by
  intro options ended default
  have hwith : ∀ path, a.checklist = some path → h.isFile path = .ok true →
      ended = a.presentation h stamp
        (checkFromChecklist h a.manifest path a.strict options s) := by
    intro path hpath hfile
    have hchosen := CheckArguments.chosenChecklist_of_isFile hpath hfile
    exact CheckArguments.checkProgram_eq_presentation hparse
      (CheckArguments.run_eq_checkFromChecklist_bind hlist hsettings hchosen stamp) s
  refine ⟨hwith, fun hnone hfound => ?_, fun path lines hholds hlines => ⟨fun hpath => ?_, ?_⟩⟩
  · have hchosen := CheckArguments.chosenChecklist_of_none hnone hfound
    exact CheckArguments.checkProgram_eq_presentation hparse
      (CheckArguments.run_eq_checkDefault_bind hlist hsettings hchosen stamp) s
  · rw [hwith path hpath hholds.isFile, hlines.checkFromChecklist_eq hholds]
    exact ⟨rfl, rfl, rfl, rfl⟩
  · intro manifest strict options s
    rw [hlines.checkFromChecklist_eq hholds]
    exact ⟨rfl, rfl, rfl, rfl, rfl⟩

/-- A checklist with a line for each of some rules, and a blank line before it. -/
def spacedChecklist (rules : List BuiltIn) : String :=
  rules.foldr (fun rule rest => "\n" ++ rule.description ++ "\n" ++ rest) ""

theorem laidOut_spacedChecklist (rules : List BuiltIn) :
    LaidOut (rules.map fun rule => Text.ofString rule.description)
      (Text.ofString (spacedChecklist rules)) := by
  induction rules with
  | nil => exact .none (by decide)
  | cons rule rules ih =>
    have htext : Text.ofString (spacedChecklist (rule :: rules)) =
        Text.ofString "\n" ++ Text.ofString rule.description ++ [] ++
          .char '\n' :: Text.ofString (spacedChecklist rules) := by
      rw [spacedChecklist, List.foldr_cons]
      simp only [Text.ofString_append, List.append_nil, List.append_assoc]
      rfl
    rw [htext]
    exact .line _ (by decide) (by decide) (.inl rfl) ih

/-- A project with a checklist that is found only if it is asked for. -/
def hostWithRules (content : List UInt8) : Host :=
  { tree := ⟨[([Text.Utf8.encodeString "Cargo.toml"], .file []),
    ([Text.Utf8.encodeString "rules"], .file content)]⟩ }

/-- A checklist of the default rules, backwards and then forwards, and no checklist at all. -/
theorem entryPoints_agree_backwards :
    let picked := BuiltIn.defaults.reverse ++ BuiltIn.defaults
    let lines := picked.map fun rule => Text.ofString rule.description
    let h := hostWithRules (Text.Utf8.encodeString (spacedChecklist picked))
    let path := Path.ofText "rules"
    let a : CheckArguments := { checklist := some path }
    let b : CheckArguments := {}
    let arguments : List Text := ["--culture-checklist-path", "rules"]
    let stamp : Stamp := ⟨"first", "today"⟩
    let s : Cargo.Script := [("metadata", [.notStarted "busy"])]
    checkGrammar.parse arguments = .ok (.command a) ∧ checkGrammar.parse [] = .ok (.command b) ∧
      HoldsLines h path lines ∧ NameExactly lines Rule.defaults ∧
      findChecklist h (.ofText checklistName) = .ok none ∧
      (checkProgram h s stamp arguments).exit =
        (a.presentation h stamp (checkDefault h a.manifest {} s)).exit ∧
      checkProgram h s stamp arguments =
        a.presentation h stamp (checkFromChecklist h a.manifest path false {} s) ∧
      checkProgram h s stamp [] = b.presentation h stamp (checkDefault h b.manifest {} s) := by
  intro picked lines h path a b arguments stamp s
  have hparse : checkGrammar.parse arguments = .ok (.command a) := by rfl
  have hparse' : checkGrammar.parse [] = .ok (.command b) := by rfl
  -- whatever the content is, so that it is not computed
  have hcontent (content : List UInt8) :
      (hostWithRules content).fileContent path = .ok content := by rfl
  have hfound (content : List UInt8) :
      findChecklist (hostWithRules content) (.ofText checklistName) = .ok none := by rfl
  have hholds : HoldsLines h path lines :=
    ⟨spacedChecklist picked, hcontent _, laidOut_spacedChecklist picked⟩
  have hlines : NameExactly lines Rule.defaults := by
    intro line
    simp [lines, picked, Rule.defaults, Rule.description]
  have hsettings : a.settings h = .ok {} := rfl
  have hsettings' : b.settings h = .ok {} := rfl
  obtain ⟨hwith, -, hlisted⟩ := entryPoints_agree hparse rfl hsettings stamp s
  obtain ⟨-, hplain, -⟩ := entryPoints_agree hparse' rfl hsettings' stamp s
  exact ⟨hparse, hparse', hholds, hlines, hfound _, ((hlisted path lines hholds hlines).1 rfl).1,
    hwith path rfl hholds.isFile, hplain rfl (hfound _)⟩

end CommandLine

end ProjectAudit
