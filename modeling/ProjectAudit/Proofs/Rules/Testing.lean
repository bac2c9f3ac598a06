import ProjectAudit.Proofs.Cargo.Summaries
import ProjectAudit.Proofs.Run.HandingOver
import ProjectAudit.Proofs.Run.Leaves
import ProjectAudit.Proofs.Text.Utf8
import ProjectAudit.Rules.BuiltIn

/-!
# The rule that tests

The rule runs the tests and looks at what they print, not at how they end.  Without a summary line
it comes to no decision.  Otherwise it adds the counts up, and all that matters is whether a failure
is counted and whether enough tests passed.  So to ask for more tests never helps, and one summary
of a failure cannot be made up for by others.

The rule gives up where a number has too many digits to be read, or to be written: it tells how many
tests ran, also if nobody asks.  It gives up as well where the call of the tests cannot be handed
over to the system.

* `Rules.judgeTests_ending`: what judging a test run comes to, check by check.
* `BuiltIn.passesTests_decides`: the outcome, by the summary lines.
-/

namespace ProjectAudit

open Run

/-- The call that runs the tests can be handed over to the system. -/
def Context.CanTest (c : Context) : Prop :=
  c.toolchain.Passes c.host [(recursionGuard, "true")] (c.toolchain.arguments "test" c.manifest [])

namespace Rules

variable {c : Context} {s : Cargo.Script}

/-! ## One test run -/

/-- What the text that the tests print comes to. -/
def testVerdict (settings : Settings.Tests) (stdout : Text) : Except RuleFault Outcome :=
  match Cargo.TestSummary.ofOutput stdout with
  | .error .countTooLong => .error .countTooLong
  | .error .noSummary => .ok .undetermined
  | .ok summary =>
    if Text.isWritable summary.ran then .ok (judgeSummary settings summary)
    else .error .countTooLong

/-- Only the text matters that the tests print. -/
theorem judgeTests_ending (settings : Settings.Tests) (output : Cargo.Output) (s : Cargo.Script) :
    (judgeTests c settings output s).value =
      match output.stdoutText with
      | .error _ => .ok .undetermined
      | .ok stdout => testVerdict settings stdout := by
  rcases hstdout : output.stdoutText with e | stdout
  · have hrun : judgeTests c settings output = (do
        c.note "Failed to interpret `cargo test` output as utf8 for parsing."
        pure .undetermined) := by
      rw [judgeTests, hstdout]
    rw [hrun]
    exact (c.noteThen_ending _ _ _).1
  dsimp only
  rw [testVerdict]
  rcases hsummary : Cargo.TestSummary.ofOutput stdout with (_ | _) | summary
  · obtain ⟨m, note, hrun⟩ : ∃ m, ∃ note : Run RuleFault Unit, judgeTests c settings output = (do
        c.note m
        note
        pure .undetermined) ∧ ∀ t, (note t).value = .ok () := by
      rw [judgeTests, hstdout]
      dsimp only
      rw [hsummary]
      cases output.success with
      | true => exact ⟨_, pure (), rfl, fun _ => rfl⟩
      | false => exact ⟨_, c.note _, rfl, fun t => (c.note_ending _ t).1⟩
    rw [hrun.1, bind_of_ok (c.note_ending m s).1, bind_of_ok (hrun.2 _)]
    rfl
  · have hrun : judgeTests c settings output = Run.fail .countTooLong := by
      rw [judgeTests, hstdout]
      dsimp only
      rw [hsummary]
    rw [hrun]
    rfl
  · dsimp only
    cases hwritable : Text.isWritable summary.ran with
    | true =>
      have hrun : judgeTests c settings output = (do
          c.note (summaryNote summary)
          pure (judgeSummary settings summary)) := by
        rw [judgeTests, hstdout]
        dsimp only
        rw [hsummary]
        exact if_pos hwritable
      rw [hrun]
      exact (c.noteThen_ending _ _ _).1
    | false =>
      have hrun : judgeTests c settings output = Run.fail .countTooLong := by
        rw [judgeTests, hstdout]
        dsimp only
        rw [hsummary]
        exact if_neg (by simp [hwritable])
      rw [hrun]
      rfl

/-- What the reply to the call of the tests comes to. -/
def replyVerdict (settings : Settings.Tests) : Cargo.Reply → Except RuleFault Outcome
  | .notStarted _ => .ok .undetermined
  | .finished response =>
    match Text.Utf8.decode response.stdout with
    | .error _ => .ok .undetermined
    | .ok stdout => testVerdict settings stdout

/-- Whether the call of the tests can be handed over. -/
def testHanded (c : Context) : Except Cargo.StartFault Unit :=
  c.toolchain.handed c.host "test" c.manifest [] [(recursionGuard, "true")]

/-- What the rule comes to with settings that can be read. -/
theorem passesTests_value {id : Text} {settings : Settings.Tests}
    (hsettings : c.settings.get id Settings.Tests.ofJson {} = .valid settings) :
    (passesTests id c s).value =
      if c.host.recursionGuardActive then .ok .undetermined
      else (testHanded c).mapError .call >>= fun _ => replyVerdict settings (s.reply "test") := by
  cases hguard : c.host.recursionGuardActive with
  | true =>
    have hrun : ∃ message, passesTests id c = (do
        c.note message
        pure .undetermined) := by
      rw [passesTests, Context.settingsOf_of_valid hsettings, Run.pure_bind, hguard]
      exact ⟨_, rfl⟩
    obtain ⟨message, hrun⟩ := hrun
    rw [hrun, if_pos rfl]
    exact (c.noteThen_ending _ _ _).1
  | false =>
    rw [if_neg Bool.false_ne_true, passesTests, Context.settingsOf_of_valid hsettings,
      Run.pure_bind, hguard, if_neg Bool.false_ne_true]
    have hvalue : (Cargo.attemptCall RuleFault.call (c.toolchain.test c.host c.manifest) s).value =
        ((testHanded c).mapError .call).map fun _ =>
          Cargo.Toolchain.replied (c.toolchain.arguments "test" c.manifest [])
            (s.reply "test") := by
      rw [Cargo.Toolchain.test, Cargo.attemptCall_apply]
      rfl
    rcases hhanded : testHanded c with fault | ⟨⟩
    · rw [hhanded] at hvalue
      rw [bind_of_error hvalue]
      rfl
    cases hreply : s.reply "test" with
    | notStarted reason =>
      rw [hhanded, hreply] at hvalue
      exact (c.bind_noteThen hvalue rfl).2
    | finished response =>
      rw [hhanded, hreply] at hvalue
      rw [bind_of_ok hvalue]
      exact judgeTests_ending settings _ _

/-- What the rule comes to where the tests are run, and print a text. -/
theorem passesTests_ending {id : Text} {settings : Settings.Tests}
    (hsettings : c.settings.get id Settings.Tests.ofJson {} = .valid settings)
    (hguard : c.host.recursionGuardActive = false) {response : Cargo.Response}
    (hreply : s.reply "test" = .finished response) {stdout : Text}
    (hdecode : Text.Utf8.decode response.stdout = .ok stdout) :
    (passesTests id c s).value =
      (testHanded c).mapError .call >>= fun _ => testVerdict settings stdout := by
  rw [passesTests_value hsettings, hguard, if_neg Bool.false_ne_true, hreply, replyVerdict, hdecode]

/-! ## The summary lines decide -/

open Cargo BinaryResult

variable {settings : Settings.Tests} {stdout : Text} {results : List BinaryResult}

theorem judgeSummary_eq_success_iff :
    judgeSummary settings (TestSummary.ofResults results) = .success ↔
      (∀ r ∈ results, r.ok = true ∧ r.failedCount = 0) ∧
        settings.minPassed ≤ ((results.map passedCount).sum : Nat) := by
  have hcondition : ((TestSummary.ofResults results).allPassed &&
      settings.minPassed ≤ (TestSummary.ofResults results).passed) = true ↔
        (∀ r ∈ results, r.ok = true ∧ r.failedCount = 0) ∧
          settings.minPassed ≤ ((results.map passedCount).sum : Nat) := by
    rw [Bool.and_eq_true, decide_eq_true_iff, TestSummary.allPassed, beq_iff_eq,
      TestSummary.failed_eq_zero_iff]
    rfl
  rw [judgeSummary, ← hcondition]
  split <;> rename_i hsuccess
  · exact iff_of_true rfl hsuccess
  · exact iff_of_false (by simp) hsuccess

theorem judgeSummary_ne_undetermined (settings : Settings.Tests) (summary : TestSummary) :
    judgeSummary settings summary ≠ .undetermined := by
  rw [judgeSummary]
  split <;> simp

theorem judgeSummary_eq_failure_iff {summary : TestSummary} :
    judgeSummary settings summary = .failure ↔ judgeSummary settings summary ≠ .success := by
  rw [judgeSummary]
  split <;> simp

/-- **What a text comes to, by its summaries.** -/
theorem testVerdict_eq_ok_iff (h : SummariesOf (Text.splitNewlines stdout) results) {o : Outcome} :
    testVerdict settings stdout = .ok o ↔
      (results = [] ∧ o = .undetermined) ∨
        (results ≠ [] ∧ (∀ r ∈ results, r.IsReadable) ∧
          Text.isWritable (TestSummary.ofResults results).ran = true ∧
          judgeSummary settings (TestSummary.ofResults results) = o) := by
  rw [testVerdict]
  rcases hsummary : TestSummary.ofOutput stdout with (_ | _) | summary
  · have hnil := (TestSummary.ofOutput_eq_noSummary_iff h).1 hsummary
    dsimp only
    constructor
    · rintro ⟨⟩
      exact .inl ⟨hnil, rfl⟩
    · rintro (⟨-, rfl⟩ | ⟨hne, -⟩)
      · rfl
      · exact absurd hnil hne
  · constructor
    · rintro ⟨⟩
    · rintro (⟨hnil, -⟩ | ⟨hne, hall, -⟩)
      · cases hsummary.symm.trans ((TestSummary.ofOutput_eq_noSummary_iff h).2 hnil)
      · cases hsummary.symm.trans ((TestSummary.ofOutput_eq_ok_iff h).2 ⟨hne, hall, rfl⟩)
  · obtain ⟨hne, hall, rfl⟩ := (TestSummary.ofOutput_eq_ok_iff h).1 hsummary
    dsimp only
    split <;> rename_i hwritable
    · constructor
      · intro hvalue
        exact .inr ⟨hne, hall, hwritable, Except.ok.inj hvalue⟩
      · rintro (⟨hnil, -⟩ | ⟨-, -, -, rfl⟩)
        · exact absurd hnil hne
        · rfl
    · constructor
      · rintro ⟨⟩
      · rintro (⟨hnil, -⟩ | ⟨-, -, hwritable', -⟩)
        · exact absurd hnil hne
        · exact absurd hwritable' hwritable

theorem testVerdict_eq_success_iff (h : SummariesOf (Text.splitNewlines stdout) results) :
    testVerdict settings stdout = .ok .success ↔
      results ≠ [] ∧ (∀ r ∈ results, r.IsReadable) ∧
        Text.isWritable (TestSummary.ofResults results).ran = true ∧
        (∀ r ∈ results, r.ok = true ∧ r.failedCount = 0) ∧
          settings.minPassed ≤ ((results.map passedCount).sum : Nat) := by
  rw [testVerdict_eq_ok_iff h, judgeSummary_eq_success_iff]
  simp

end Rules

open Rules Cargo BinaryResult

/-- **The rule that tests decides by all summary lines.**  Of a test run that could be handed over
and started, and that printed a text, the lines are looked at that are summaries.  If their counts
can be read, and the number of tests that ran can be written, the rule comes to an outcome: it is
undetermined exactly if there is no summary, a success exactly if there are some, all of them say
that the binary is fine and that no test failed, and enough tests passed over all, and else a
failure.  The number of tests that ran is the one that is told, in which a binary that failed counts
for one failure at least.

So a success is never come to by asking for more tests, nor if one summary is that of a binary that
failed, whatever the others say. -/
theorem BuiltIn.passesTests_decides {c : Context} {settings : Settings.Tests}
    (hsettings : c.settings.get BuiltIn.passesTests.id Settings.Tests.ofJson {} = .valid settings)
    (hguard : c.host.recursionGuardActive = false) (hcan : c.CanTest) {s : Cargo.Script}
    {response : Cargo.Response} (hreply : s.reply "test" = .finished response) {stdout : Text}
    (hdecode : Text.Utf8.decode response.stdout = .ok stdout) :
    ∃ results, SummariesOf (Text.splitNewlines stdout) results ∧
      let allPass := ∀ r ∈ results, r.ok = true ∧ r.failedCount = 0
      let passed : Nat := (results.map passedCount).sum
      let value := (BuiltIn.passesTests.evaluate c s).value
      ((∀ r ∈ results, r.IsReadable) →
        Text.isWritable (passed + (results.map failures).sum) = true →
        ∃ o, value = .ok o ∧ (o = .undetermined ↔ results = []) ∧
          (o = .success ↔ results ≠ [] ∧ allPass ∧ settings.minPassed ≤ passed) ∧
          (o = .failure ↔ results ≠ [] ∧ ¬ (allPass ∧ settings.minPassed ≤ passed))) ∧
      (∀ (c' : Context) (settings' : Settings.Tests), c'.host = c.host →
        c'.settings.get BuiltIn.passesTests.id Settings.Tests.ofJson {} = .valid settings' →
        settings.minPassed ≤ settings'.minPassed →
        (BuiltIn.passesTests.evaluate c' s).value = .ok .success → value = .ok .success) ∧
      ((∃ r ∈ results, r.ok = false) → value ≠ .ok .success) := by
  have hresults := summariesOf_iff.2 (rfl : (Text.splitNewlines stdout).filterMap ofLine? = _)
  have hhanded : testHanded c = .ok () := Toolchain.handed_eq_ok_iff.2 hcan
  have hvalue : (BuiltIn.passesTests.evaluate c s).value = testVerdict settings stdout := by
    refine (passesTests_ending hsettings hguard hreply hdecode).trans ?_
    rw [hhanded]
    rfl
  refine ⟨_, hresults, ?_⟩
  generalize (Text.splitNewlines stdout).filterMap ofLine? = results at hresults ⊢
  intro allPass passed value
  refine ⟨fun hreadable hwritable => ?_, fun c' settings' hhost hsettings' hle hsuccess => ?_, ?_⟩
  · by_cases hnil : results = []
    · have hundetermined : value = .ok .undetermined :=
        hvalue.trans ((testVerdict_eq_ok_iff hresults).2 (.inl ⟨hnil, rfl⟩))
      exact ⟨_, hundetermined, by simp [hnil], by simp [hnil], by simp [hnil]⟩
    · have hjudged : value = .ok (judgeSummary settings (TestSummary.ofResults results)) :=
        hvalue.trans ((testVerdict_eq_ok_iff hresults).2 (.inr ⟨hnil, hreadable, hwritable, rfl⟩))
      refine ⟨_, hjudged, ?_, ?_, ?_⟩
      · exact iff_of_false (judgeSummary_ne_undetermined settings _) hnil
      · rw [judgeSummary_eq_success_iff]
        exact (and_iff_right hnil).symm
      · rw [judgeSummary_eq_failure_iff, Ne, judgeSummary_eq_success_iff]
        exact (and_iff_right hnil).symm
  · have hvalue' : (BuiltIn.passesTests.evaluate c' s).value = _ :=
      passesTests_ending hsettings' (hhost ▸ hguard) hreply hdecode
    obtain ⟨-, -, hsuccess⟩ := bind_eq_ok.1 (hvalue'.symm.trans hsuccess)
    rw [testVerdict_eq_success_iff hresults] at hsuccess
    obtain ⟨hne, hreadable, hwritable, hall, hmin⟩ := hsuccess
    refine hvalue.trans ((testVerdict_eq_success_iff hresults).2 ?_)
    exact ⟨hne, hreadable, hwritable, hall, Int.le_trans hle hmin⟩
  · rintro ⟨r, hr, hfailed⟩ hsuccess
    obtain ⟨-, -, -, hall, -⟩ :=
      (testVerdict_eq_success_iff hresults).1 (hvalue.symm.trans hsuccess)
    exact Bool.false_ne_true (hfailed.symm.trans (hall r hr).1)

/-- Five tests are asked for, and passed according to two summaries, one of which has a digit of
another script. -/
theorem BuiltIn.passesTests_decides_scripts :
    let c : Context := {
      manifest := .ofText "/p/Cargo.toml"
      metadataResult := { status := .invalid }
      settings := ⟨[(BuiltIn.passesTests.id, [("min_passed", .int 5)])]⟩ }
    let printed :=
      "test result: ok. 2 passed; 0 failed; 0 ignored\ntest result: ok. ٣ passed; 0 failed;"
    let s : Cargo.Script := [("test", [.finished { stdout := Text.Utf8.encodeString printed }])]
    (BuiltIn.passesTests.evaluate c s).value = .ok .success := by
  intro c printed s
  have hsettings : c.settings.get BuiltIn.passesTests.id Settings.Tests.ofJson {} =
      .valid { minPassed := 5 } := by
    rfl
  have hdecode : Text.Utf8.decode (Text.Utf8.encodeString printed) = .ok (Text.ofString printed) :=
    Text.Utf8.decode_encodeString printed
  obtain ⟨results, hresults, hdecided, -, -⟩ :=
    BuiltIn.passesTests_decides (s := s) hsettings (by decide +kernel)
      (Toolchain.handed_eq_ok_iff.1 (by rfl)) rfl hdecode
  have hread : results = [⟨true, "2", "0"⟩, ⟨true, "٣", "0"⟩] := by
    rw [← summariesOf_iff.1 hresults]
    decide +kernel
  subst hread
  obtain ⟨o, hvalue, -, hsuccess, -⟩ := hdecided (by decide) (by decide +kernel)
  rw [hvalue, hsuccess.2 (by decide)]

end ProjectAudit
