import ProjectAudit.Proofs.Evaluation.Lines
import ProjectAudit.Proofs.Run.Calling
import ProjectAudit.Proofs.Run.HandingOver

/-!
# The rule that builds

The rule cleans the packages of the project one after the other and then builds.  It stops at the
first process that cannot be started or fails, so what it runs is a beginning of that list of
processes, and the last one decides.  A build that succeeds is judged by what it printed: whether
its standard output is text, and whether a diagnostic is found on either stream.

A process that cannot be handed over to the system, since the name of its package or something else
that it is given has no form as an argument, is the last one as well.  It ends the rule with a
fault, for which a run records that nothing is decided.

* `Rules.cleanPackages_cons_of_cleaned`, `Rules.cleanPackages_cons_of_not_cleaned`: one package.
* `Rules.cleanPackages_of_cleaned`, `Rules.cleanPackages_of_stop`: any packages, by induction.
* `BuildVerdict`: what a build comes to, by its reply.
* `BuiltIn.buildsCleanly_decides`: the processes that are run, and the outcome.
-/

namespace ProjectAudit

open Run

/-- The process could be started, and it succeeded. -/
def Cargo.Reply.Succeeds (reply : Reply) : Prop :=
  ∃ response, reply = .finished response ∧ response.success = true

/-- The outcome of a rule that stops at a process that does not succeed. -/
def Cargo.Reply.stopOutcome : Reply → Outcome
  | .notStarted _ => .undetermined
  | .finished _ => .failure

namespace Context

variable (c : Context)

/-- The guard that is handed to a process whose call sets none. -/
def handedGuard : Option Text :=
  (c.toolchain.addition? recursionGuard).or (c.host.environmentValue? recursionGuard)

/-- The process that cleans a package. -/
def cleanCall (name : Text) : Call :=
  ⟨c.toolchain.arguments "clean" c.manifest ["--package", name], c.handedGuard⟩

/-- The process that builds the project. -/
def buildCall : Call :=
  ⟨c.toolchain.arguments "build" c.manifest ["--message-format=json"], c.handedGuard⟩

/-- The process of a call that sets no variables can be handed over to the system. -/
def CanCall (call : Call) : Prop :=
  c.toolchain.Passes c.host [] call.arguments

/-- The packages of the given names are cleaned one after the other: each process can be handed
over, could be started and succeeds. -/
structure Cleans (names : List Text) (s : Cargo.Script) : Prop where
  canCall : ∀ name ∈ names, c.CanCall (c.cleanCall name)
  succeeds : ∀ i < names.length, (s.replyAt "clean" i).Succeeds

/-- What a call comes to that sets no variables. -/
structure Calls (sub : Text) (call : Call) (s : Cargo.Script)
    (ending : Ending RuleFault (Except Cargo.InvocationError Cargo.Output)) : Prop where
  value_eq : c.CanCall call →
    ending.value = .ok (Cargo.Toolchain.replied call.arguments (s.reply sub))
  fails : ¬ c.CanCall call → Fails ending.value
  script_eq : ending.script = s.advance sub
  calls_eq : Event.calls ending.events = [call]

/-- What a call of the rule comes to. -/
theorem calls_attemptCall (sub : Text) (more : List Text) (s : Cargo.Script) :
    c.Calls sub ⟨c.toolchain.arguments sub c.manifest more, c.handedGuard⟩ s
      (Cargo.attemptCall .call (c.toolchain.call c.host sub c.manifest more []) s) where
  value_eq hcan := Cargo.value_attemptCall_of_passes hcan
  fails hcannot := by
    obtain ⟨fault, hfault⟩ := Cargo.value_attemptCall_of_not_passes hcannot
    exact ⟨_, hfault⟩
  script_eq := by
    rw [Cargo.attemptCall_apply]
    exact Cargo.Toolchain.script_call ..
  calls_eq := by
    rw [Cargo.attemptCall_apply]
    exact c.toolchain.calls_call_nil c.host c.manifest s sub more

theorem calls_clean (name : Text) (s : Cargo.Script) :
    c.Calls "clean" (c.cleanCall name) s
      (Cargo.attemptCall .call (c.toolchain.clean c.host c.manifest name) s) :=
  c.calls_attemptCall "clean" ["--package", name] s

theorem calls_build (s : Cargo.Script) :
    c.Calls "build" c.buildCall s
      (Cargo.attemptCall .call (c.toolchain.build c.host c.manifest) s) :=
  c.calls_attemptCall "build" ["--message-format=json"] s

variable {c} {name : Text} {names : List Text} {s : Cargo.Script}

/-- The first package is cleaned, and then the others with the replies that are left. -/
theorem cleans_cons_iff :
    c.Cleans (name :: names) s ↔
      (c.CanCall (c.cleanCall name) ∧ (s.reply "clean").Succeeds) ∧
        c.Cleans names (s.advance "clean") := by
  constructor
  · rintro ⟨hcan, hsucceeds⟩
    obtain ⟨hfirst, hrest⟩ := Cargo.Script.forall_replyAt_succ.1 hsucceeds
    obtain ⟨hcanFirst, hcanRest⟩ := List.forall_mem_cons.1 hcan
    exact ⟨⟨hcanFirst, hfirst⟩, hcanRest, hrest⟩
  · rintro ⟨⟨hcanFirst, hfirst⟩, hcanRest, hrest⟩
    exact ⟨List.forall_mem_cons.2 ⟨hcanFirst, hcanRest⟩,
      Cargo.Script.forall_replyAt_succ.2 ⟨hfirst, hrest⟩⟩

theorem cleans_nil : c.Cleans [] s :=
  ⟨nofun, nofun⟩

end Context

namespace Rules

variable {c : Context} {s : Cargo.Script}

/-! ## Cleaning -/

/-- A package that is cleaned is passed over. -/
theorem cleanPackages_cons_of_cleaned {name : Text} (hcan : c.CanCall (c.cleanCall name))
    (hsucceeds : (s.reply "clean").Succeeds) (names : List Text) :
    let rest := cleanPackages c names (s.advance "clean")
    let ending := cleanPackages c (name :: names) s
    ending.value = rest.value ∧ ending.script = rest.script ∧
      Event.calls ending.events = c.cleanCall name :: Event.calls rest.events := by
  obtain ⟨response, hreply, hsuccess⟩ := hsucceeds
  have hcalled := c.calls_clean name s
  have hvalue := hcalled.value_eq hcan
  rw [hreply, Cargo.Toolchain.replied] at hvalue
  have hgo : Cargo.Output.success ⟨(c.cleanCall name).arguments, response⟩ = true := hsuccess
  rw [cleanPackages, bind_of_ok hvalue]
  simp only [hgo, if_true]
  rw [hcalled.script_eq, Event.calls_append, hcalled.calls_eq]
  exact ⟨rfl, rfl, rfl⟩

/-- A package that is not cleaned is the last one. -/
theorem cleanPackages_cons_of_not_cleaned {name : Text}
    (hstop : ¬ (c.CanCall (c.cleanCall name) ∧ (s.reply "clean").Succeeds)) (names : List Text) :
    let ending := cleanPackages c (name :: names) s
    Event.calls ending.events = [c.cleanCall name] ∧
      (c.CanCall (c.cleanCall name) → ending.value = .ok (some (s.reply "clean").stopOutcome)) ∧
      (¬ c.CanCall (c.cleanCall name) → Fails ending.value) := by
  have hcalled := c.calls_clean name s
  rw [← hcalled.calls_eq, cleanPackages]
  by_cases hcan : c.CanCall (c.cleanCall name)
  · have hvalue := hcalled.value_eq hcan
    simp only [hcan, forall_const, not_true_eq_false, false_implies, and_true]
    cases hreply : s.reply "clean" with
    | notStarted reason =>
      rw [hreply, Cargo.Toolchain.replied] at hvalue
      exact c.bind_noteThen hvalue rfl
    | finished response =>
      rw [hreply, Cargo.Toolchain.replied] at hvalue
      have hfailed : ¬ response.success = true :=
        fun hsuccess => hstop ⟨hcan, response, hreply, hsuccess⟩
      exact c.bind_noteThen hvalue (if_neg hfailed)
  · obtain ⟨fault, hfault⟩ := hcalled.fails hcan
    rw [bind_of_error hfault]
    exact ⟨rfl, fun hcan' => absurd hcan' hcan, fun _ => fails_error fault⟩

/-- Packages that are all cleaned come to no outcome, and the replies to the build are left. -/
theorem cleanPackages_of_cleaned :
    ∀ {names : List Text} {s : Cargo.Script}, c.Cleans names s →
      let ending := cleanPackages c names s
      ending.value = .ok none ∧ ending.script.reply "build" = s.reply "build" ∧
        Event.calls ending.events = names.map c.cleanCall
  | [], _, _ => ⟨rfl, rfl, rfl⟩
  | name :: names, s, h => by
    obtain ⟨⟨hcan, hfirst⟩, hrest⟩ := Context.cleans_cons_iff.1 h
    have hbuild : (s.advance "clean").reply "build" = s.reply "build" :=
      Cargo.Script.reply_advance_of_ne (by simp [Text.ofString_inj]) s
    obtain ⟨hvalue, hscript, hcalls⟩ := cleanPackages_cons_of_cleaned hcan hfirst names
    obtain ⟨hnone, hreply, hrestCalls⟩ := cleanPackages_of_cleaned hrest
    refine ⟨hvalue.trans hnone, ?_, ?_⟩
    · rw [hscript, hreply, hbuild]
    · rw [hcalls, hrestCalls, List.map_cons]

/-- The first package that is not cleaned is the last one, and decides. -/
theorem cleanPackages_of_stop (name : Text) (after : List Text) :
    ∀ {before : List Text} {s : Cargo.Script}, c.Cleans before s →
      ¬ c.Cleans (before ++ [name]) s →
      let ending := cleanPackages c (before ++ name :: after) s
      Event.calls ending.events = (before ++ [name]).map c.cleanCall ∧
        (c.CanCall (c.cleanCall name) →
          ending.value = .ok (some (s.replyAt "clean" before.length).stopOutcome)) ∧
        (¬ c.CanCall (c.cleanCall name) → Fails ending.value)
  | [], s, _, hstop => by
    rw [List.nil_append, Context.cleans_cons_iff, and_iff_left Context.cleans_nil] at hstop
    rw [List.length_nil, Cargo.Script.replyAt_zero]
    exact cleanPackages_cons_of_not_cleaned hstop after
  | first :: before, s, h, hstop => by
    obtain ⟨⟨hcan, hfirst⟩, hrest⟩ := Context.cleans_cons_iff.1 h
    rw [List.cons_append, Context.cleans_cons_iff, and_iff_right ⟨hcan, hfirst⟩] at hstop
    rw [List.length_cons, Cargo.Script.replyAt_succ]
    obtain ⟨hvalue, -, hcalls⟩ :=
      cleanPackages_cons_of_cleaned hcan hfirst (before ++ name :: after)
    obtain ⟨hrestCalls, hsome, hfails⟩ := cleanPackages_of_stop name after hrest hstop
    dsimp only
    rw [List.cons_append, hcalls, hvalue, hrestCalls, List.cons_append, List.map_cons]
    exact ⟨rfl, hsome, hfails⟩

/-! ## Building -/

/-- What a build comes to, by the reply to it. -/
inductive BuildVerdict : Cargo.Reply → Outcome → Prop
  /-- The build could not be started, or it failed, whatever it printed. -/
  | stopped {reply : Cargo.Reply} (hstop : ¬ reply.Succeeds) :
    BuildVerdict reply reply.stopOutcome
  /-- What the build printed is no text. -/
  | undecodable {response : Cargo.Response} (hsuccess : response.success = true)
    (hdecode : Fails (Text.Utf8.decode response.stdout)) :
    BuildVerdict (.finished response) .undetermined
  /-- A diagnostic is found on one of the streams. -/
  | diagnosed {response : Cargo.Response} {stdout : Text} {found : List Cargo.Diagnostic}
    (hsuccess : response.success = true) (hdecode : Text.Utf8.decode response.stdout = .ok stdout)
    (hfound : Cargo.Diagnostic.ofOutput stdout = .ok found)
    (hany : found ≠ [] ∨
      Cargo.Diagnostic.ofErrors (Text.Utf8.decodeLossy response.stderr) ≠ []) :
    BuildVerdict (.finished response) .failure
  /-- No diagnostic is found on any stream. -/
  | clean {response : Cargo.Response} {stdout : Text} (hsuccess : response.success = true)
    (hdecode : Text.Utf8.decode response.stdout = .ok stdout)
    (hfound : Cargo.Diagnostic.ofOutput stdout = .ok [])
    (hnone : Cargo.Diagnostic.ofErrors (Text.Utf8.decodeLossy response.stderr) = []) :
    BuildVerdict (.finished response) .success

theorem noteDiagnostics_ending :
    ∀ (ds : List Cargo.Diagnostic) (s : Cargo.Script),
      (noteDiagnostics c ds s).value = .ok ()
  | [], _ => rfl
  | d :: ds, s => by
    rw [noteDiagnostics, bind_of_ok (c.note_ending _ s).1]
    exact noteDiagnostics_ending ds _

/-- What judging a build comes to, check by check. -/
theorem judgeBuild_ending (output : Cargo.Output) (s : Cargo.Script) :
    (judgeBuild c output s).value =
      if output.success then
        match output.stdoutText with
        | .error _ => .ok .undetermined
        | .ok stdout =>
          match Cargo.Diagnostic.collect stdout output.stderrText with
          | .error l => .error (.output l)
          | .ok found => .ok (if found.isEmpty then .success else .failure)
      else .ok .failure := by
  cases hsuccess : output.success with
  | false =>
    obtain ⟨m, m', hrun⟩ : ∃ m m', judgeBuild c output = (do
        c.note m
        c.note m'
        pure .failure) := by
      rw [judgeBuild, hsuccess]
      exact ⟨_, _, rfl⟩
    rw [hrun, bind_of_ok (c.note_ending _ s).1]
    exact (c.noteThen_ending _ _ _).1
  | true =>
    rcases hstdout : output.stdoutText with e | stdout
    · obtain ⟨m, hrun⟩ : ∃ m, judgeBuild c output = (do
          c.note m
          pure .undetermined) := by
        rw [judgeBuild, hsuccess, hstdout]
        exact ⟨_, rfl⟩
      rw [hrun]
      exact (c.noteThen_ending _ _ _).1
    rw [if_pos rfl]
    dsimp only
    rcases hcollect : Cargo.Diagnostic.collect stdout output.stderrText with l | _ | ⟨d, ds⟩
    · have hrun : judgeBuild c output = Run.fail (.output l) := by
        rw [judgeBuild, hsuccess, hstdout]
        dsimp only
        rw [hcollect]
        rfl
      rw [hrun]
      rfl
    · have hrun : judgeBuild c output = pure .success := by
        rw [judgeBuild, hsuccess, hstdout]
        dsimp only
        rw [hcollect]
        rfl
      rw [hrun]
      rfl
    · obtain ⟨m, hrun⟩ : ∃ m, judgeBuild c output = (do
          c.note m
          noteDiagnostics c (d :: ds)
          pure .failure) := by
        rw [judgeBuild, hsuccess, hstdout]
        dsimp only
        rw [hcollect]
        exact ⟨_, rfl⟩
      rw [hrun, bind_of_ok (c.note_ending _ s).1, bind_of_ok (noteDiagnostics_ending _ _)]
      rfl

theorem judgeBuild_eq_ok_iff {arguments : List Text} {response : Cargo.Response} {o : Outcome} :
    (judgeBuild c ⟨arguments, response⟩ s).value = .ok o ↔
      BuildVerdict (.finished response) o := by
  have hsucceeds : (Cargo.Reply.finished response).Succeeds ↔ response.success = true := by
    simp [Cargo.Reply.Succeeds]
  rw [judgeBuild_ending, Cargo.Output.success, Cargo.Output.stdoutText, Cargo.Output.stderrText]
  dsimp only
  constructor
  · intro hvalue
    split at hvalue
    · rename_i hsuccess
      split at hvalue
      · rename_i e hdecode
        obtain rfl := Except.ok.inj hvalue
        exact .undecodable hsuccess ⟨e, hdecode⟩
      · rename_i stdout hdecode
        split at hvalue
        · cases hvalue
        · rename_i found hcollect
          obtain ⟨first, hfirst, rfl⟩ := map_eq_ok.1 hcollect
          obtain rfl := Except.ok.inj hvalue
          split
          · rename_i hempty
            obtain ⟨rfl, hnone⟩ := List.append_eq_nil_iff.1 (List.isEmpty_iff.1 hempty)
            exact .clean hsuccess hdecode hfirst hnone
          · rename_i hany
            refine .diagnosed hsuccess hdecode hfirst ?_
            simpa [Decidable.or_iff_not_imp_left] using hany
    · rename_i hfailed
      obtain rfl := Except.ok.inj hvalue
      have hstop : ¬ (Cargo.Reply.finished response).Succeeds := mt hsucceeds.1 hfailed
      exact .stopped hstop
  · intro hverdict
    cases hverdict with
    | stopped hstop => rw [if_neg (mt hsucceeds.2 hstop), Cargo.Reply.stopOutcome]
    | undecodable hsuccess hdecode =>
      obtain ⟨e, hdecode⟩ := hdecode
      rw [if_pos hsuccess, hdecode]
    | @diagnosed _ stdout found hsuccess hdecode hfound hany =>
      have hsome : (found ++ Cargo.Diagnostic.ofErrors (Text.Utf8.decodeLossy response.stderr)) ≠ []
          := by simpa [Decidable.or_iff_not_imp_left] using hany
      rw [if_pos hsuccess, hdecode]
      simp [Cargo.Diagnostic.collect, hfound, Except.map, hsome]
    | clean hsuccess hdecode hfound hnone =>
      rw [if_pos hsuccess, hdecode]
      simp [Cargo.Diagnostic.collect, hfound, Except.map, hnone]

/-- A build starts one process, whose reply decides, or fails. -/
theorem build_spec (c : Context) (s : Cargo.Script) :
    Event.calls (build c s).events = [c.buildCall] ∧
      (c.CanCall c.buildCall →
        ∀ o, (build c s).value = .ok o ↔ BuildVerdict (s.reply "build") o) ∧
      (¬ c.CanCall c.buildCall → Fails (build c s).value) := by
  have hcalled := c.calls_build s
  rw [← hcalled.calls_eq, build]
  by_cases hcan : c.CanCall c.buildCall
  · have hvalue := hcalled.value_eq hcan
    simp only [hcan, forall_const, not_true_eq_false, false_implies, and_true]
    cases hreply : s.reply "build" with
    | notStarted reason =>
      rw [hreply, Cargo.Toolchain.replied] at hvalue
      have hstop : ¬ (Cargo.Reply.notStarted reason).Succeeds := by simp [Cargo.Reply.Succeeds]
      refine And.imp_right (fun hend o => ?_) (c.bind_noteThen hvalue rfl)
      rw [hend]
      constructor
      · rintro ⟨⟩
        exact .stopped hstop
      · rintro ⟨-⟩
        rfl
    | finished response =>
      rw [hreply, Cargo.Toolchain.replied] at hvalue
      have hnone : CallsOnly [] (judgeBuild c ⟨c.buildCall.arguments, response⟩) :=
        (stepwise_judgeBuild c _).callsOnly c.verbose
      rw [bind_of_ok hvalue]
      refine ⟨?_, fun o => judgeBuild_eq_ok_iff⟩
      dsimp only
      rw [Event.calls_append, hnone.calls_eq_nil, List.append_nil]
  · obtain ⟨fault, hfault⟩ := hcalled.fails hcan
    rw [bind_of_error hfault]
    exact ⟨rfl, fun hcan' => absurd hcan' hcan, fun _ => fails_error fault⟩

/-- Cleaning the project is cleaning its packages, of which there may be none. -/
theorem cleanProject_ending (c : Context) (s : Cargo.Script) :
    let packages := cleanPackages c (c.packages.map (·.name)) s
    (cleanProject c s).value = packages.value ∧ (cleanProject c s).script = packages.script ∧
      Event.calls (cleanProject c s).events = Event.calls packages.events := by
  cases hempty : c.packages.isEmpty with
  | true =>
    have hrun : ∃ m, cleanProject c = (do
        c.note m
        pure none) := by
      rw [cleanProject, if_pos hempty]
      exact ⟨_, rfl⟩
    obtain ⟨m, hrun⟩ := hrun
    obtain ⟨hvalue, hscript⟩ := c.noteThen_ending (ε := RuleFault) m s (none : Option Outcome)
    rw [List.isEmpty_iff] at hempty
    rw [hempty, hrun]
    exact ⟨hvalue, hscript, c.calls_noteThen m s none⟩
  | false =>
    have hrun : cleanProject c = cleanPackages c (c.packages.map (·.name)) := by
      rw [cleanProject, if_neg (by simp [hempty])]
    rw [hrun]
    exact ⟨rfl, rfl, rfl⟩

/-- A valid entry is what the rule reads. -/
theorem buildsCleanly_of_valid {id : Text} {settings : Settings.Build}
    (hsettings : c.settings.get id Settings.Build.ofJson {} = .valid settings) :
    buildsCleanly id c =
      if settings.cleanBeforeBuild then do
        match ← cleanProject c with
        | some outcome => return outcome
        | none => build c
      else build c := by
  rw [buildsCleanly, Context.settingsOf_of_valid hsettings]
  exact Run.pure_bind settings _

end Rules

open Rules

/-- **The rule that builds decides as it says, and runs no more than it needs.**  If the settings
ask for it, the packages are cleaned in the order of the metadata.  The first one whose process
cannot be started or fails is the last process, and its reply decides.  If there is none the project
is built, once and last, and the build decides: it is undetermined if it cannot be started or
printed no text, a failure if it failed or a diagnostic is found on either stream, and else a
success.

A last process that cannot even be handed over to the system ends the rule with a fault, and what is
recorded is undetermined. -/
theorem BuiltIn.buildsCleanly_decides {c : Context} {settings : Settings.Build}
    (hsettings : c.settings.get BuiltIn.buildsCleanly.id Settings.Build.ofJson {} =
      .valid settings) (s : Cargo.Script) :
    let names := if settings.cleanBeforeBuild then c.packages.map (·.name) else []
    let ending := BuiltIn.buildsCleanly.evaluate c s
    let recorded := (Rule.builtIn BuiltIn.buildsCleanly).outcomeIn c s
    (∀ before name after, names = before ++ name :: after →
      c.Cleans before s → ¬ c.Cleans (before ++ [name]) s →
      Event.calls ending.events = (before ++ [name]).map c.cleanCall ∧
        (c.CanCall (c.cleanCall name) →
          ending.value = .ok (s.replyAt "clean" before.length).stopOutcome) ∧
        (¬ c.CanCall (c.cleanCall name) → Fails ending.value ∧ recorded = .undetermined)) ∧
    (c.Cleans names s →
      Event.calls ending.events = names.map c.cleanCall ++ [c.buildCall] ∧
        (c.CanCall c.buildCall →
          ∀ o, ending.value = .ok o ↔ BuildVerdict (s.reply "build") o) ∧
        (¬ c.CanCall c.buildCall → Fails ending.value ∧ recorded = .undetermined)) := by
  intro names ending recorded
  have hrun : ending = (if settings.cleanBeforeBuild then do
        match ← cleanProject c with
        | some outcome => return outcome
        | none => build c
      else build c : Run RuleFault Outcome) s :=
    congrFun (buildsCleanly_of_valid hsettings) s
  have hrecorded (hfails : Fails ending.value) : Fails ending.value ∧ recorded = .undetermined :=
    ⟨hfails, Rule.outcomeIn_builtIn_of_fails hfails⟩
  cases hclean : settings.cleanBeforeBuild with
  | false =>
    have hnames : names = [] := if_neg (by simp [hclean])
    obtain ⟨hcalls, hverdict, hfails⟩ := build_spec c s
    rw [hclean, if_neg Bool.false_ne_true] at hrun
    rw [← hrun] at hcalls hverdict hfails
    rw [hnames]
    refine ⟨fun before name after hsplit => ?_, fun _ => ⟨hcalls, hverdict, hrecorded ∘ hfails⟩⟩
    simp at hsplit
  | true =>
    have hnames : names = c.packages.map (·.name) := if_pos hclean
    obtain ⟨hvalue, hscript, hcalls⟩ := cleanProject_ending c s
    rw [hclean, if_pos rfl] at hrun
    rw [← hnames] at hvalue hscript hcalls
    constructor
    · intro before name after hsplit hbefore hstop
      obtain ⟨hcleaned, hsome, hfails⟩ := cleanPackages_of_stop name after hbefore hstop
      rw [← hsplit, ← hvalue] at hsome hfails
      rw [← hsplit, ← hcalls] at hcleaned
      by_cases hcan : c.CanCall (c.cleanCall name)
      · rw [hrun, bind_of_ok (hsome hcan)]
        refine ⟨?_, fun _ => rfl, fun hcannot => absurd hcan hcannot⟩
        rw [← hcleaned]
        exact congrArg Event.calls (List.append_nil _)
      · obtain ⟨fault, hfault⟩ := hfails hcan
        have hend : ending = ⟨.error fault, (cleanProject c s).script, (cleanProject c s).events⟩ :=
          hrun.trans (bind_of_error hfault _)
        refine ⟨?_, fun hcan' => absurd hcan' hcan, fun _ => hrecorded ?_⟩
        · rw [hend, hcleaned]
        · rw [hend]
          exact fails_error fault
    · intro hall
      obtain ⟨hnone, hreply, hcleaned⟩ := cleanPackages_of_cleaned hall
      obtain ⟨hbuilt, hverdict, hfails⟩ := build_spec c (cleanProject c s).script
      have hend : ending = ⟨(build c (cleanProject c s).script).value,
          (build c (cleanProject c s).script).script,
          (cleanProject c s).events ++ (build c (cleanProject c s).script).events⟩ :=
        hrun.trans (bind_of_ok (hvalue.trans hnone) _)
      rw [hscript, hreply, ← hscript] at hverdict
      refine ⟨?_, ?_, fun hcannot => hrecorded ?_⟩
      · rw [hend, Event.calls_append, hcalls, hcleaned, hbuilt]
      · rw [hend]
        exact hverdict
      · rw [hend]
        exact hfails hcannot

/-- The second of three packages is not cleaned; a build without cleaning, which succeeds with a
warning on its standard error; and a package that no process can be started for. -/
theorem BuiltIn.buildsCleanly_decides_stopped :
    let c : Context := {
      manifest := .ofText "/p/Cargo.toml"
      metadataResult := .ofMetadata
        { packages := [{ name := "a" }, { name := "b" }, { name := "c" }] } }
    let s : Cargo.Script := [("clean", [.finished {}, .finished { exitCode := 101 }])]
    let c' : Context :=
      { c with settings := ⟨[(BuiltIn.buildsCleanly.id, [("clean_before_build", .bool false)])]⟩ }
    let s' : Cargo.Script :=
      [("build", [.finished { stderr := Text.Utf8.encodeString "warning: w" }])]
    Event.calls (BuiltIn.buildsCleanly.evaluate c s).events =
        [⟨["cargo", "clean", "--manifest-path", "/p/Cargo.toml", "--package", "a"], none⟩,
          ⟨["cargo", "clean", "--manifest-path", "/p/Cargo.toml", "--package", "b"], none⟩] ∧
      (BuiltIn.buildsCleanly.evaluate c s).value = .ok .failure ∧
      Event.calls (BuiltIn.buildsCleanly.evaluate c' s').events =
        [⟨["cargo", "build", "--manifest-path", "/p/Cargo.toml", "--message-format=json"], none⟩] ∧
      (BuiltIn.buildsCleanly.evaluate c' s').value = .ok .failure ∧
      let n : Context := {
        c with metadataResult := .ofMetadata { packages := [{ name := "\x00" }] } }
      Fails (BuiltIn.buildsCleanly.evaluate n s).value := by
  intro c s c' s'
  have hdefault : c.settings.get BuiltIn.buildsCleanly.id Settings.Build.ofJson {} = .valid {} := by
    rfl
  have hoff : c'.settings.get BuiltIn.buildsCleanly.id Settings.Build.ofJson {} =
      .valid { cleanBeforeBuild := false } := by
    rfl
  have hfirst : c.Cleans ["a"] s := by
    refine ⟨?_, fun i hi => ?_⟩
    · exact List.forall_mem_singleton.2 (Cargo.Toolchain.handed_eq_ok_iff.1 (by rfl))
    · obtain rfl := Nat.lt_one_iff.1 hi
      exact ⟨{}, rfl, rfl⟩
  have hsecond : ¬ c.Cleans ["a", "b"] s := by
    rintro ⟨-, hsucceeds⟩
    obtain ⟨response, hreply, hsuccess⟩ := hsucceeds 1 (by decide)
    obtain rfl := Cargo.Reply.finished.inj hreply
    cases hsuccess
  obtain ⟨hstop, -⟩ := BuiltIn.buildsCleanly_decides hdefault s
  obtain ⟨-, hbuild⟩ := BuiltIn.buildsCleanly_decides hoff s'
  obtain ⟨hcalls, hvalue, -⟩ := hstop ["a"] "b" ["c"] (by rfl) hfirst hsecond
  obtain ⟨hcalls', hverdict, -⟩ := hbuild Context.cleans_nil
  have hcan : c.CanCall (c.cleanCall "b") := Cargo.Toolchain.handed_eq_ok_iff.1 (by rfl)
  have hcan' : c'.CanCall c'.buildCall := Cargo.Toolchain.handed_eq_ok_iff.1 (by rfl)
  have hempty : Text.Utf8.decode [] = .ok [] := rfl
  refine ⟨hcalls.trans (by rfl), hvalue hcan, hcalls'.trans (by rfl), (hverdict hcan' _).2 ?_, ?_⟩
  · exact .diagnosed rfl hempty rfl (.inr (by decide +kernel))
  · intro n
    have hcannot : ¬ n.CanCall (n.cleanCall "\x00") := by
      intro hcan
      have hnul := (hcan.argument "\x00" (by decide +kernel)).nul_notMem
      exact hnul (by decide)
    obtain ⟨hnul, -⟩ := BuiltIn.buildsCleanly_decides (c := n) hdefault s
    obtain ⟨-, -, hfails⟩ := hnul [] "\x00" [] (by rfl) Context.cleans_nil fun hcleans =>
      hcannot (hcleans.canCall _ (List.mem_singleton_self _))
    exact (hfails hcannot).1

end ProjectAudit
