import ProjectAudit.Proofs.CommandLine.Setup
import ProjectAudit.Proofs.Evaluation.Calls

/-!
# No test run inside a test run

A project may check itself in its own tests.  Its check then calls the tests, which check the
project, and so on; what ends this is a variable.  The process of the tests is handed the recursion
guard, and a check whose environment has the guard does not call the tests.

The guard must hold against everything else that has a say in the matter.  The environment of a
process is put together from three sources, so the value that belongs to the call has to go before
those of the toolchain and of the host.  And a rule may end before it looks at the guard, namely if
its settings are of no use; what is recorded for it is the same then.

So the guard is followed from one process into the next: what is handed on by each call, what a
rule, a list of rules, a check and the whole program call where the guard is set.

* `BuiltIn.callsOnly_of_guard`: a rule that is guarded calls no tests.
* `recursion_guarded`: the guard is handed to the tests, and stops whatever runs inside them.
-/

namespace ProjectAudit

open Run

/-- The guard that the tests are handed is one. -/
theorem Host.recursionGuardActive_of_handed {h : Host}
    (hvalue : h.environmentValue? recursionGuard = some "true") :
    h.recursionGuardActive = true := by
  rw [recursionGuardActive, hvalue]
  decide +kernel

/-! ## What is called where the guard is set -/

/-- The subcommands of the rules that are left when the tests are not called. -/
def guardedSubcommands : List Text :=
  ["clean", "build"]

variable {c : Context}

namespace Rules

/-- A guarded rule about the tests reads its settings, and comes to no decision. -/
theorem passesTests_of_guard (hguard : c.host.recursionGuardActive = true) (id : Text) :
    passesTests id c = (do
      let _ ← c.settingsOf id Settings.Tests.ofJson {}
      c.note "Already running inside `cargo test` started by culture; not recursing."
      return .undetermined) := by
  simp only [passesTests, hguard, if_true]

theorem callsOnly_passesTests_of_guard (hguard : c.host.recursionGuardActive = true) (id : Text)
    {own : List Text} : CallsOnly own (passesTests id c) := by
  rw [passesTests_of_guard hguard]
  exact (leaves_ofExcept _).bind fun _ =>
    (leaves_note c _ fun _ => Event.callsOnly_note).bind fun _ => leaves_pure _

theorem eq_undetermined_of_passesTests (hguard : c.host.recursionGuardActive = true) {id : Text}
    {s : Cargo.Script} {o : Outcome} (hvalue : (passesTests id c s).value = .ok o) :
    o = .undetermined := by
  rw [passesTests_of_guard hguard] at hvalue
  obtain ⟨settings, -, hvalue⟩ := value_bind_eq_ok.1 hvalue
  obtain ⟨-, -, hvalue⟩ := value_bind_eq_ok.1 hvalue
  exact (Except.ok.inj hvalue).symm

end Rules

/-- **A guarded rule calls no tests.** -/
theorem BuiltIn.callsOnly_of_guard (hguard : c.host.recursionGuardActive = true) (rule : BuiltIn) :
    CallsOnly guardedSubcommands (rule.evaluate c) := by
  have hcalls := rule.callsOnly_evaluate c
  cases rule with
  | passesTests => exact Rules.callsOnly_passesTests_of_guard hguard _
  | buildsCleanly => exact hcalls
  | metadataReadable | contributing | license | readme | continuousIntegration | propertyTesting
    | formatter | sourceControl => exact hcalls.of_subset (List.nil_subset _)

theorem Rule.callsOnly_of_guard (hguard : c.host.recursionGuardActive = true) (rule : Rule) :
    CallsOnly guardedSubcommands (rule.evaluate c) := by
  cases rule with
  | builtIn rule => exact (rule.callsOnly_of_guard hguard).bind fun _ => leaves_pure _
  | custom rule =>
    have hcalls := ((Rule.custom rule).stepwise c).callsOnly c.verbose
    exact hcalls.of_subset (List.nil_subset _)

/-- What is recorded for a guarded rule about the tests, also if its settings are of no use. -/
theorem Rule.outcomeIn_of_guard (hguard : c.host.recursionGuardActive = true) (s : Cargo.Script) :
    (Rule.builtIn .passesTests).outcomeIn c s = .undetermined := by
  exact outcomeIn_eq_undetermined fun _ => Rules.eq_undetermined_of_passesTests hguard

/-! ## The whole program -/

/-- The subcommands of a program that does not call the tests. -/
def guardedProgramSubcommands : List Text :=
  "metadata" :: guardedSubcommands

section

variable {h : Host} (hguard : h.recursionGuardActive = true)
include hguard

theorem callsOnly_check_of_guard (manifest : Path) (rules : Option (List Rule))
    (options : CheckOptions) :
    CallsOnly guardedProgramSubcommands (check h manifest rules options) := by
  have hgather : CallsOnly guardedProgramSubcommands (gatherContext h manifest options) :=
    leaves_gatherContext h manifest options Event.callsOnly_logged (fun _ => Event.callsOnly_note)
      fun _ hcall => Event.callsOnly_started ⟨_, .head _, hcall⟩
  refine hgather.bind_of_value fun s c hc => ?_
  have hhost : c.host.recursionGuardActive = true := by
    obtain ⟨resolved, result, rfl⟩ := context_of_gatherContext hc
    exact hguard
  have hrules : CallsOnly guardedProgramSubcommands
      (evaluateRules c (rules.getD Rule.defaults) : Run Failure (List Finding)) :=
    evaluateRules_callsOnly fun rule _ =>
      (rule.callsOnly_of_guard hhost).of_subset (List.subset_cons_self _ _)
  refine Leaves.bind (hrules.bind fun _ => leaves_pure _) fun report => ?_
  exact (leaves_emit (Event.callsOnly_report _)).bind fun _ => leaves_pure _

namespace CommandLine

theorem CheckArguments.callsOnly_run_of_guard (a : CheckArguments) (stamp : Stamp) :
    CallsOnly guardedProgramSubcommands (a.run h stamp) := by
  rw [run]
  split
  · exact (leaves_emit (Event.callsOnly_report _)).bind fun _ => leaves_pure _
  · refine (leaves_ofExcept _).bind fun settings =>
      ((a.onlyLogs_chosenRules h).leaves Event.callsOnly_logged).bind fun rules =>
        (callsOnly_check_of_guard hguard _ _ _).bind fun report => ?_
    exact (leaves_ofExcept _).bind fun host => leaves_pure _

theorem CheckArguments.callsOnly_runPrinting_of_guard (a : CheckArguments) (stamp : Stamp) :
    CallsOnly guardedProgramSubcommands (a.runPrinting h stamp) := by
  refine (a.callsOnly_run_of_guard hguard stamp).attempt.bind fun ending => ?_
  rcases ending with (f | _ | _) | ⟨code, host⟩
  all_goals first
    | exact leaves_pure _
    | exact leaves_fail _
    | exact (leaves_emit (Event.callsOnly_report _)).bind fun _ => leaves_pure _

/-- A guarded program calls no tests, whatever its command line asks for. -/
theorem mem_calls_checkProgram_of_guard {s : Cargo.Script} {stamp : Stamp} {arguments : List Text}
    {call : Call} (hcall : call ∈ (checkProgram h s stamp arguments).calls) :
    ∃ sub ∈ guardedProgramSubcommands, call.subcommand? = some sub := by
  rw [checkProgram, Grammar.conclude] at hcall
  split at hcall
  · exact absurd hcall List.not_mem_nil
  · exact absurd hcall List.not_mem_nil
  · exact (CheckArguments.callsOnly_runPrinting_of_guard hguard _ stamp).of_mem_calls hcall

end CommandLine

end

/-! ## The guard from one process into the next -/

/-- The tests are none of the subcommands of a guarded program. -/
theorem Call.ne_test_of_guard {call : Call}
    (hcall : ∃ sub ∈ guardedProgramSubcommands, call.subcommand? = some sub) :
    call.subcommand? ≠ some "test" := by
  obtain ⟨sub, hmem, hsub⟩ := hcall
  rw [hsub]
  rintro ⟨⟩
  exact absurd hmem (by decide)

/-- Whatever is run on a host, it does not call the tests. -/
structure CallsNoTests (h : Host) : Prop where
  /-- All rules of a list are reported on, the one about the tests as undetermined. -/
  rules : ∀ (c : Context) (rules : List Rule) (s : Cargo.Script), c.host = h →
    let ending : Ending Failure (List Finding) := evaluateRules c rules s
    (∃ findings, ending.value = .ok findings ∧
      List.Forall₂ (fun rule f => f.description = rule.description ∧
        (rule = .builtIn .passesTests → f.outcome = .undetermined)) rules findings) ∧
    ∀ call ∈ Event.calls ending.events, call.subcommand? ≠ some "test"
  check : ∀ manifest rules options (s : Cargo.Script),
    ∀ call ∈ Event.calls (check h manifest rules options s).events, call.subcommand? ≠ some "test"
  program : ∀ (s : Cargo.Script) stamp arguments,
    ∀ call ∈ (CommandLine.checkProgram h s stamp arguments).calls, call.subcommand? ≠ some "test"

theorem callsNoTests_of_guard {h : Host} (hguard : h.recursionGuardActive = true) :
    CallsNoTests h where
  rules c rules s hhost := by
    have hc : c.host.recursionGuardActive = true := hhost ▸ hguard
    obtain ⟨findings, hvalue, hall⟩ := evaluateRules_findingIn (ε := Failure) c rules s
    refine ⟨⟨findings, hvalue, hall.imp ?_⟩, fun call hcall => Call.ne_test_of_guard ?_⟩
    · rintro rule f ⟨script, rfl⟩
      refine ⟨rfl, ?_⟩
      rintro rfl
      exact Rule.outcomeIn_of_guard hc script
    · have hrules : CallsOnly guardedSubcommands
          (evaluateRules c rules : Run Failure (List Finding)) :=
        evaluateRules_callsOnly fun rule _ => rule.callsOnly_of_guard hc
      exact (hrules.of_subset (List.subset_cons_self _ _)).of_mem_calls hcall
  check manifest rules options _ _ hcall :=
    Call.ne_test_of_guard
      ((callsOnly_check_of_guard hguard manifest rules options).of_mem_calls hcall)
  program _ _ _ _ hcall :=
    Call.ne_test_of_guard (CommandLine.mem_calls_checkProgram_of_guard hguard hcall)

/-- **No tests are run inside of tests**, whatever the environments say.  The process of the tests
is handed a guard that counts as one wherever it is read; the other calls hand on the value of the
toolchain, else that of the host, as it is.  And where the guard is set, no rule, no check and no
run of the program calls the tests, and the rule about them is recorded as undetermined. -/
theorem recursion_guarded (t : Cargo.Toolchain) (h : Host) (manifest : Path) (s : Cargo.Script) :
    let handed := (t.addition? recursionGuard).or (h.environmentValue? recursionGuard)
    (∃ guard,
      Event.calls (t.test h manifest s).events = [⟨t.arguments "test" manifest [], guard⟩] ∧
      ∀ nested : Host, nested.environmentValue? recursionGuard = guard →
        nested.recursionGuardActive = true) ∧
    Event.calls (t.metadata h manifest s).events =
      [⟨t.arguments "metadata" manifest ["--format-version", "1"], handed⟩] ∧
    (∀ package, Event.calls (t.clean h manifest package s).events =
      [⟨t.arguments "clean" manifest ["--package", package], handed⟩]) ∧
    Event.calls (t.build h manifest s).events =
      [⟨t.arguments "build" manifest ["--message-format=json"], handed⟩] ∧
    ∀ nested : Host, nested.recursionGuardActive = true → CallsNoTests nested := by
  intro handed
  refine ⟨⟨_, t.calls_test h manifest s, fun nested => Host.recursionGuardActive_of_handed⟩,
    t.calls_call_nil h manifest s _ _, fun package => t.calls_call_nil h manifest s _ _,
    t.calls_call_nil h manifest s _ _, fun nested hguard => callsNoTests_of_guard hguard⟩

/-- The toolchain and the host both say that no test run is under way.  In the one that is, the rule
about the tests is asked twice, with settings that are of no use. -/
theorem recursion_guarded_denied :
    let t : Cargo.Toolchain := { additions := [(recursionGuard, "false")] }
    let h : Host := { environment := [(recursionGuard, "no")] }
    let nested := t.hostOfCall h [(recursionGuard, "true")]
    let c : Context := {
      manifest := .ofText "/p/Cargo.toml"
      metadataResult := { status := .invalid }
      settings := ⟨[(BuiltIn.passesTests.id, [("min_passed", .null)])]⟩
      host := nested }
    let rules : List Rule := [.builtIn .passesTests, .builtIn .passesTests]
    h.recursionGuardActive = false ∧ nested.recursionGuardActive = true ∧
      Event.calls (t.build h c.manifest []).events =
        [⟨["cargo", "build", "--manifest-path", "/p/Cargo.toml", "--message-format=json"],
          some "false"⟩] ∧
      ∃ first second, (evaluateRules c rules []).value =
          (.ok [first, second] : Except Failure (List Finding)) ∧
        first.outcome = .undetermined ∧ second.outcome = .undetermined := by
  intro t h nested c rules
  obtain ⟨⟨guard, htest, hguard⟩, -, -, hbuild, hnested⟩ := recursion_guarded t h c.manifest []
  have hactive : nested.recursionGuardActive = true := by
    refine hguard nested ?_
    rw [t.calls_test] at htest
    exact (t.environmentValue?_hostOfCall h _ _).trans
      (congrArg Call.guard (List.cons.inj htest).1)
  obtain ⟨⟨findings, hvalue, hall⟩, -⟩ := (hnested nested hactive).rules c rules [] rfl
  obtain ⟨first, _, hfirst, hrest, rfl⟩ := List.forall₂_cons_left_iff.1 hall
  obtain ⟨second, _, hsecond, hnil, rfl⟩ := List.forall₂_cons_left_iff.1 hrest
  obtain rfl := List.forall₂_nil_left_iff.1 hnil
  exact ⟨by decide +kernel, hactive, hbuild.trans (by rfl), _, _, hvalue, hfirst.2 rfl,
    hsecond.2 rfl⟩

end ProjectAudit
