import ProjectAudit.CommandLine.Program
import ProjectAudit.Proofs.Audit.ChecklistFile
import ProjectAudit.Proofs.CommandLine.Selection
import ProjectAudit.Proofs.Run.Faulting
import ProjectAudit.Proofs.Settings.Loading

/-!
# Flaws of what a check is given

A check can be given a settings file, a checklist and a manifest, and each of them can be flawed.
A flaw belongs to one of four stages, and it makes one failure.  Whether there is one is a matter of
the arguments and of the files, and of nothing that the check has done before.

The steps of a check fail exactly if there is a flaw of their stages.  At each stage there is one
flaw at most, so the flaw that no other one precedes is determined.

* `CommandLine.CheckArguments.Flaw`: what can be wrong with what a command is given.
* `CommandLine.CheckArguments.settings_eq_setup_iff`,
  `CommandLine.CheckArguments.chosenRules_eq_setup_iff`: the failures of the first stages are flaws.
* `CommandLine.CheckArguments.FirstFlaw.unique`: there is one first flaw at most.
-/

namespace ProjectAudit

open Run

namespace CommandLine

/-- The stages of a setup. -/
inductive SetupStage
  | settings
  | checklist
  | requests
  | manifest
  deriving DecidableEq, Repr

/-- The place of a stage among the stages. -/
def SetupStage.rank : SetupStage → Nat
  | .settings => 0
  | .checklist => 1
  | .requests => 2
  | .manifest => 3

namespace CheckArguments

/-- A flaw of what the command is given: the stage at which it shows, and the failure that it makes.
Whether there is a flaw at one stage does not depend on the stages before. -/
inductive Flaw (a : CheckArguments) (h : Host) : SetupStage → SetupFailure → Prop
  /-- The system does not hand out the settings file. -/
  | settingsRefused {path : Path} {fault : PathFault} (hasked : a.settingsFile = some path)
    (hread : h.readText Text.Utf8.decode path = .error (.unreadable fault))
    (hrefused : fault.isRefusal = true) :
    Flaw a h .settings (.settingsUnreadable path fault.message)
  /-- The settings file holds no JSON. -/
  | settingsMalformed {path : Path} {text : Text} {e : Json.SyntaxError}
    (hasked : a.settingsFile = some path) (hread : h.readText Text.Utf8.decode path = .ok text)
    (hjson : Json.read text = .error (.malformed e)) :
    Flaw a h .settings (.settingsUnreadable path e.message)
  /-- The settings file holds JSON that is no settings. -/
  | settingsInvalid {path : Path} {text : Text} {v : Json} {issues : List Issue}
    (hasked : a.settingsFile = some path) (hread : h.readText Text.Utf8.decode path = .ok text)
    (hjson : Json.read text = .ok v)
    (hinvalid : (RuleSettings.ofJson (RuleSettings.wrapped v)).toExcept = .error issues) :
    Flaw a h .settings (.settingsInvalid path issues)
  /-- The checklist that is asked for is not a file. -/
  | checklistNotFound {path : Path} (hasked : a.checklist = some path)
    (hfile : h.isFile path = .ok false) :
    Flaw a h .checklist (.checklistNotFound path)
  /-- The system does not hand out the checklist. -/
  | checklistRefused {path : Path} {fault : PathFault}
    (hchosen : a.chosenChecklist h = .ok (some path))
    (hread : h.readText Text.Utf8.decodeBlocks path = .error (.unreadable fault))
    (hrefused : fault.isRefusal = true) :
    Flaw a h .checklist (.checklistUnreadable path fault.message)
  /-- The checklist holds no text. -/
  | checklistUndecodable {path : Path} {e : Text.Utf8.DecodeError}
    (hchosen : a.chosenChecklist h = .ok (some path))
    (hread : h.readText Text.Utf8.decodeBlocks path = .error (.undecodable e)) :
    Flaw a h .checklist (.checklistUnreadable path e.message)
  /-- A line of the checklist, the first one of its kind, describes no rule. -/
  | ruleNotFound {path : Path} {text description : Text} {before after : List Text}
    (hstrict : a.strict = true) (hchosen : a.chosenChecklist h = .ok (some path))
    (hread : h.readText Text.Utf8.decodeBlocks path = .ok text)
    (hlines : checklistLines text = before ++ description :: after)
    (hknown : ∀ d ∈ before, ∃ rule ∈ Rule.available, rule.description = d)
    (hunknown : ∀ rule ∈ Rule.available, rule.description ≠ description) :
    Flaw a h .requests (.ruleNotFound description)
  /-- The manifest is not a file. -/
  | manifestNotFound (hfile : h.isFile a.manifest = .ok false) :
    Flaw a h .manifest (.manifestNotFound a.manifest)

/-- The failure is that of a flaw before which there is no other. -/
def FirstFlaw (a : CheckArguments) (h : Host) (f : SetupFailure) : Prop :=
  ∃ stage, a.Flaw h stage f ∧ ∀ other g, a.Flaw h other g → stage.rank ≤ other.rank

end CheckArguments

end CommandLine

/-! ## One lemma for each stage -/

/-- Of requests that are followed strictly, the first one that describes no rule is the failure. -/
theorem checkRequests_eq_error_iff {catalog : List Rule} {strict : Bool} {requested : List Text}
    {s : Cargo.Script} {failure : Failure} :
    (checkRequests catalog strict requested s).value = .error failure ↔
      strict = true ∧ ∃ before description after, requested = before ++ description :: after ∧
        (∀ d ∈ before, ∃ rule ∈ catalog, rule.description = d) ∧
        (∀ rule ∈ catalog, rule.description ≠ description) ∧
        failure = .setup (.ruleNotFound description) := by
  induction requested with
  | nil =>
    constructor
    · intro hvalue
      cases hvalue
    · rintro ⟨-, before, description, after, hsplit, -⟩
      simp at hsplit
  | cons description rest ih =>
    rw [checkRequests, exists_cut_cons_iff]
    by_cases hknown : ∃ rule ∈ catalog, rule.description = description
    · have hnever : ¬ ∀ rule ∈ catalog, rule.description ≠ description := by
        simpa using hknown
      rw [if_pos (isKnown_iff.2 hknown), ih]
      simp only [List.forall_mem_cons, hknown, hnever, true_and, false_and, and_false, false_or]
    · have hnone : ∀ rule ∈ catalog, rule.description ≠ description := by
        simpa using hknown
      rw [if_neg (mt isKnown_iff.1 hknown)]
      -- the lines behind this one are not come to
      simp only [List.forall_mem_cons, hknown, false_and, and_false, exists_false, or_false]
      cases strict with
      | true =>
        constructor
        · intro hvalue
          exact ⟨rfl, List.forall_mem_nil _, hnone, (Except.error.inj hvalue).symm⟩
        · rintro ⟨-, -, -, rfl⟩
          rfl
      | false =>
        refine iff_of_false (fun hvalue => ?_) fun hstrict => Bool.false_ne_true hstrict.1
        obtain hlog | ⟨-, -, hrest⟩ := value_bind_eq_error.1 hvalue
        · cases hlog
        · exact Bool.false_ne_true (ih.1 hrest).1

/-- Only two steps of following a checklist can fail: reading it, and looking through its lines. -/
theorem checklistRules_eq_error_iff {h : Host} {path : Path} {strict : Bool} {s : Cargo.Script}
    {failure : Failure} :
    (checklistRules h path strict s).value = .error failure ↔
      readChecklist h path = .error failure ∨ ∃ requested, readChecklist h path = .ok requested ∧
        (checkRequests Rule.available strict requested s).value = .error failure := by
  rw [checklistRules, value_bind_eq_error, ofExcept_apply]
  refine or_congr_right (exists_congr fun requested => and_congr_right fun _ => ?_)
  rw [value_bind_eq_error, filterRules, value_bind_eq_error]
  constructor
  · rintro ((hrequests | ⟨_, -, hpure⟩) | ⟨_, -, hlog⟩)
    · exact hrequests
    · cases hpure
    · cases hlog
  · exact fun hrequests => .inl (.inl hrequests)

namespace CommandLine.CheckArguments

variable {a : CheckArguments} {h : Host} {s : Cargo.Script} {f : SetupFailure}

theorem settings_eq_setup_iff : a.settings h = .error (.setup f) ↔ a.Flaw h .settings f := by
  rw [settings]
  constructor
  · intro hvalue
    cases hasked : a.settingsFile with
    | none =>
      rw [hasked] at hvalue
      cases hvalue
    | some path =>
      rw [hasked] at hvalue
      cases RuleSettings.load_eq_setup_iff.1 hvalue with
      | denied hgiven hfile =>
        exact .settingsRefused hasked (Host.readText_eq_unreadable_iff.2 hfile)
          (Host.isRefusal_of_fileContent hgiven hfile)
      | malformed hread hjson => exact .settingsMalformed hasked hread hjson
      | invalid hread hjson hissues =>
        exact .settingsInvalid hasked hread hjson (Checked.toExcept_eq_error_iff.2 hissues)
  · intro hflaw
    cases hflaw with
    | settingsRefused hasked hread hrefused =>
      have hfile := Host.readText_eq_unreadable_iff.1 hread
      rw [hasked]
      exact RuleSettings.load_eq_setup_iff.2
        (.denied (Host.canBeGiven_of_isRefusal hfile hrefused) hfile)
    | settingsMalformed hasked hread hjson =>
      rw [hasked]
      exact RuleSettings.load_eq_setup_iff.2 (.malformed hread hjson)
    | settingsInvalid hasked hread hjson hinvalid =>
      rw [hasked]
      exact RuleSettings.load_eq_setup_iff.2
        (.invalid hread hjson (Checked.toExcept_eq_error_iff.1 hinvalid))

theorem chosenChecklist_eq_setup_iff :
    a.chosenChecklist h = .error (.setup f) ↔
      ∃ path, a.checklist = some path ∧ h.isFile path = .ok false ∧
        f = .checklistNotFound path := by
  rw [chosenChecklist]
  cases a.checklist with
  | none =>
    cases findChecklist h (.ofText checklistName) with
    | error fault => simp [mapError_error]
    | ok path => simp [mapError_ok]
  | some path =>
    rcases hfile : h.isFile path with fault | (_ | _)
    · simp [hfile, mapError_error, bind, Except.bind]
    · simp [hfile, mapError_ok, bind, Except.bind, @eq_comm _ f]
    · simp [hfile, mapError_ok, bind, Except.bind, pure, Except.pure]

theorem chosenRules_eq_setup_iff :
    (a.chosenRules h s).value = .error (.setup f) ↔
      a.Flaw h .checklist f ∨ a.Flaw h .requests f := by
  have hrules : ∀ path,
      ((do return some (← checklistRules h path a.strict) :
        Run Failure (Option (List Rule))) s).value = .error (.setup f) ↔
          (checklistRules h path a.strict s).value = .error (.setup f) := by
    intro path
    rw [value_bind_eq_error]
    refine or_iff_left ?_
    rintro ⟨rules, -, hpure⟩
    cases hpure
  rw [chosenRules, value_bind_eq_error, ofExcept_apply]
  constructor
  · rintro (hchosen | ⟨_ | path, hchosen, hvalue⟩)
    · obtain ⟨path, hasked, hfile, rfl⟩ := chosenChecklist_eq_setup_iff.1 hchosen
      exact .inl (.checklistNotFound hasked hfile)
    · cases hvalue
    · rcases checklistRules_eq_error_iff.1 ((hrules path).1 hvalue) with
        hread | ⟨lines, hread, hrequests⟩
      · rcases readChecklist_eq_setup_iff.1 hread with
          ⟨fault, htext, hrefused, rfl⟩ | ⟨e, htext, rfl⟩
        · exact .inl (.checklistRefused hchosen htext hrefused)
        · exact .inl (.checklistUndecodable hchosen htext)
      · obtain ⟨text, htext, rfl⟩ := readChecklist_eq_ok_iff.1 hread
        obtain ⟨hstrict, before, description, after, hlines, hknown, hunknown, hfailure⟩ :=
          checkRequests_eq_error_iff.1 hrequests
        cases hfailure
        exact .inr (.ruleNotFound hstrict hchosen htext hlines hknown hunknown)
  · rintro (hflaw | hflaw)
    · cases hflaw with
      | checklistNotFound hasked hfile =>
        exact .inl (chosenChecklist_eq_setup_iff.2 ⟨_, hasked, hfile, rfl⟩)
      | checklistRefused hchosen hread hrefused =>
        have hfails := readChecklist_eq_setup_iff.2 (.inl ⟨_, hread, hrefused, rfl⟩)
        exact .inr ⟨_, hchosen, (hrules _).2 (checklistRules_eq_error_iff.2 (.inl hfails))⟩
      | checklistUndecodable hchosen hread =>
        have hfails := readChecklist_eq_setup_iff.2 (.inr ⟨_, hread, rfl⟩)
        exact .inr ⟨_, hchosen, (hrules _).2 (checklistRules_eq_error_iff.2 (.inl hfails))⟩
    · cases hflaw with
      | ruleNotFound hstrict hchosen hread hlines hknown hunknown =>
        have hlist := readChecklist_eq_ok_iff.2 ⟨_, hread, rfl⟩
        have hfails := (checkRequests_eq_error_iff (s := s)).2
          ⟨hstrict, _, _, _, hlines, hknown, hunknown, rfl⟩
        exact .inr ⟨_, hchosen,
          (hrules _).2 (checklistRules_eq_error_iff.2 (.inr ⟨_, hlist, hfails⟩))⟩

/-- At each stage there is one flaw at most. -/
theorem Flaw.eq_of_flaw {stage : SetupStage} {g : SetupFailure} (hf : a.Flaw h stage f)
    (hg : a.Flaw h stage g) : f = g := by
  have hinj : ∀ {α : Type} {r : Except Failure α}, r = .error (.setup f) →
      r = .error (.setup g) → f = g := by
    intro α r hf hg
    exact Failure.setup.inj (Except.error.inj (hf.symm.trans hg))
  cases stage with
  | settings => exact hinj (settings_eq_setup_iff.2 hf) (settings_eq_setup_iff.2 hg)
  | checklist =>
    exact hinj (chosenRules_eq_setup_iff (s := []).2 (.inl hf))
      (chosenRules_eq_setup_iff.2 (.inl hg))
  | requests =>
    exact hinj (chosenRules_eq_setup_iff (s := []).2 (.inr hf))
      (chosenRules_eq_setup_iff.2 (.inr hg))
  | manifest =>
    cases hf
    cases hg
    rfl

/-- A checklist is looked through only if it can be read. -/
theorem Flaw.not_checklist_of_requests {g : SetupFailure} (hf : a.Flaw h .requests f) :
    ¬ a.Flaw h .checklist g := by
  intro hg
  have hrequests := (chosenRules_eq_setup_iff (s := [])).2 (.inr hf)
  have hchecklist := (chosenRules_eq_setup_iff (s := [])).2 (.inl hg)
  obtain rfl := Failure.setup.inj (Except.error.inj (hrequests.symm.trans hchecklist))
  cases hf
  cases hg

theorem FirstFlaw.unique {g : SetupFailure} (hf : a.FirstFlaw h f) (hg : a.FirstFlaw h g) :
    f = g := by
  obtain ⟨stage, hflaw, hfirst⟩ := hf
  obtain ⟨other, hflaw', hfirst'⟩ := hg
  have hrank : stage.rank = other.rank :=
    Nat.le_antisymm (hfirst other g hflaw') (hfirst' stage f hflaw)
  have hstage : stage = other := by
    cases stage <;> cases other <;> first | rfl | cases hrank
  subst hstage
  exact hflaw.eq_of_flaw hflaw'

end CommandLine.CheckArguments

end ProjectAudit
