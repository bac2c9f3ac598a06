import ProjectAudit.Proofs.Rules.Testing

/-!
# How a test run ends

A test run that could be started leaves three things: an exit code and two texts.  The rule that
tests takes one of them, the text on standard output, and lets its summary lines decide.  Whether
the process says that it failed is asked only where there is no summary at all, and then for the
sake of a note.

So what the rule comes to is the same for every exit code.  A run may fail and print summaries of
binaries that are fine, since a binary that aborts prints none and the summaries of those before it
are there already.  Such a run is a success for the rule.

* `Cargo.Response.ReportsPassing`: what has to be printed for a success.
* `Rules.replyVerdict_eq_success_iff`: which replies to the call of the tests come to a success.
* `BuiltIn.passesTests_success_iff`: a success, and the exit code that is no part of it.
-/

namespace ProjectAudit

open Run Cargo BinaryResult

/-- What a test run printed reports that the tests pass: it is a text with summaries in it, their
numbers can be read and written, every summary is that of a binary that is fine and had no failing
test, and as many tests passed as are asked for. -/
inductive Cargo.Response.ReportsPassing (settings : Settings.Tests) (response : Response) : Prop
  | intro {stdout : Text} {results : List BinaryResult}
    (hdecode : Text.Utf8.decode response.stdout = .ok stdout)
    (hresults : SummariesOf (Text.splitNewlines stdout) results) (hsome : results ≠ [])
    (hreadable : ∀ r ∈ results, r.IsReadable)
    (hwritable : Text.isWritable (TestSummary.ofResults results).ran = true)
    (hpass : ∀ r ∈ results, r.ok = true ∧ r.failedCount = 0)
    (henough : settings.minPassed ≤ ((results.map passedCount).sum : Nat)) :
    ReportsPassing settings response

namespace Rules

variable {c : Context} {s : Script} {id : Text}

/-- A reply comes to a success exactly if it is that of a process which reports that the tests
pass. -/
theorem replyVerdict_eq_success_iff {settings : Settings.Tests} {reply : Reply} :
    replyVerdict settings reply = .ok .success ↔
      ∃ response, reply = .finished response ∧ response.ReportsPassing settings := by
  cases reply with
  | notStarted reason =>
    constructor
    · intro h
      cases h
    · rintro ⟨response, hreply, -⟩
      cases hreply
  | finished response =>
    rw [replyVerdict]
    constructor
    · intro h
      refine ⟨response, rfl, ?_⟩
      split at h
      · cases h
      · rename_i stdout hdecode
        have hresults : SummariesOf (Text.splitNewlines stdout) _ := summariesOf_iff.2 rfl
        obtain ⟨hsome, hreadable, hwritable, hpass, henough⟩ :=
          (testVerdict_eq_success_iff hresults).1 h
        exact .intro hdecode hresults hsome hreadable hwritable hpass henough
    · rintro ⟨_, hreply, hreports⟩
      obtain rfl := Reply.finished.inj hreply
      obtain ⟨hdecode, hresults, hsome, hreadable, hwritable, hpass, henough⟩ := hreports
      rw [hdecode]
      exact (testVerdict_eq_success_iff hresults).2
        ⟨hsome, hreadable, hwritable, hpass, henough⟩

/-- What comes of the reply comes of the rule, if the call can be handed over. -/
theorem handed_then_eq_ok_iff {r : Except RuleFault Outcome} {o : Outcome} :
    ((testHanded c).mapError .call >>= fun _ => r) = .ok o ↔ c.CanTest ∧ r = .ok o := by
  rw [Context.CanTest, ← Toolchain.handed_eq_ok_iff, bind_eq_ok]
  simp only [mapError_eq_ok, testHanded, exists_and_right]
  exact and_congr_left fun _ => ⟨fun ⟨_, h⟩ => h, fun h => ⟨(), h⟩⟩

/-- Settings that cannot be read end the rule with a fault. -/
theorem passesTests_of_invalid {issues : List Issue}
    (hsettings : c.settings.get id Settings.Tests.ofJson {} = .invalid issues) :
    (passesTests id c s).value = .error (.settings issues) := by
  have hfails : (c.settingsOf id Settings.Tests.ofJson {} s).value = .error (.settings issues) := by
    rw [Context.settingsOf, ofExcept_apply, hsettings]
    rfl
  rw [passesTests, bind_of_error hfails]

end Rules

open Rules

/-- **The rule that tests does not look at how the tests end.**  It comes to a success exactly if
its settings can be read, it is not inside of a test run, and a test run could be handed over and
started that reports on its standard output that the tests pass.  Two test runs that print the same
there come to the same, whatever their exit codes and their standard errors are, a success
included. -/
theorem BuiltIn.passesTests_success_iff (c : Context) (s : Script) :
    ((BuiltIn.passesTests.evaluate c s).value = .ok .success ↔
      c.host.recursionGuardActive = false ∧ c.CanTest ∧ ∃ settings response,
        c.settings.get BuiltIn.passesTests.id Settings.Tests.ofJson {} = .valid settings ∧
        s.reply "test" = .finished response ∧ response.ReportsPassing settings) ∧
    ∀ (response : Response) (s' : Script) (exitCode : Int) (stderr : List UInt8),
      s.reply "test" = .finished response →
      s'.reply "test" = .finished { response with exitCode, stderr } →
      (BuiltIn.passesTests.evaluate c s').value = (BuiltIn.passesTests.evaluate c s).value := by
  have hevaluate : BuiltIn.passesTests.evaluate c = Rules.passesTests BuiltIn.passesTests.id c :=
    rfl
  rw [hevaluate]
  cases hsettings : c.settings.get BuiltIn.passesTests.id Settings.Tests.ofJson {} with
  | invalid issues =>
    refine ⟨?_, fun response s' exitCode stderr _ _ => ?_⟩
    · rw [passesTests_of_invalid hsettings]
      simp
    · rw [passesTests_of_invalid hsettings, passesTests_of_invalid hsettings]
  | valid settings =>
    refine ⟨?_, fun response s' exitCode stderr hreply hreply' => ?_⟩
    · rw [passesTests_value hsettings]
      cases c.host.recursionGuardActive with
      | true => simp
      | false =>
        rw [if_neg Bool.false_ne_true, handed_then_eq_ok_iff, replyVerdict_eq_success_iff]
        simp
    · rw [passesTests_value hsettings, passesTests_value hsettings, hreply, hreply']
      rfl

/-- One summary, of three tests that pass, where two are asked for. -/
theorem Cargo.Response.reportsPassing_three {response : Response}
    (h : response.stdout =
      Text.Utf8.encodeString "test result: ok. 3 passed; 0 failed; 0 ignored\n") :
    response.ReportsPassing {} := by
  have hdecode := h ▸ Text.Utf8.decode_encodeString _
  refine .intro hdecode (summariesOf_iff.2 rfl) ?_ ?_ ?_ ?_ ?_ <;> decide +kernel

/-- Three tests pass.  A run that fails with the same text comes to the same, also if it says
why. -/
theorem BuiltIn.passesTests_success_iff_three :
    let c : Context := {
      manifest := .ofText "/p/Cargo.toml"
      metadataResult := { status := .invalid } }
    let response : Response := {
      stdout := Text.Utf8.encodeString "test result: ok. 3 passed; 0 failed; 0 ignored\n" }
    let failed : Response :=
      { response with exitCode := 101, stderr := Text.Utf8.encodeString "error: test failed" }
    response.ReportsPassing {} ∧
      (BuiltIn.passesTests.evaluate c [("test", [.finished response])]).value = .ok .success ∧
      (BuiltIn.passesTests.evaluate c [("test", [.finished failed])]).value = .ok .success := by
  intro c response failed
  have hreports : response.ReportsPassing {} := Response.reportsPassing_three rfl
  obtain ⟨hsuccess, hsame⟩ :=
    BuiltIn.passesTests_success_iff c [("test", [.finished response])]
  have hcan : c.CanTest := Toolchain.handed_eq_ok_iff.1 (by rfl)
  have hvalue := hsuccess.2 ⟨by decide +kernel, hcan, {}, response, rfl, rfl, hreports⟩
  exact ⟨hreports, hvalue, (hsame response _ 101 _ rfl rfl).trans hvalue⟩

/-- The second test binary aborts: the process fails, and what it printed is the summary of the
first one. -/
theorem BuiltIn.passesTests_success_aborted :
    let c : Context := {
      manifest := .ofText "/p/Cargo.toml"
      metadataResult := { status := .invalid } }
    let response : Response := {
      exitCode := 101
      stdout := Text.Utf8.encodeString "test result: ok. 3 passed; 0 failed; 0 ignored\n" }
    let s : Script := [("test", [.finished response])]
    s.reply "test" = .finished response ∧ response.success = false ∧
      (BuiltIn.passesTests.evaluate c s).value = .ok .success := by
  intro c response s
  have hreports : response.ReportsPassing {} := Response.reportsPassing_three rfl
  have hreply : s.reply "test" = .finished response := rfl
  have hvalue : (Rules.passesTests BuiltIn.passesTests.id c s).value =
      if c.host.recursionGuardActive then .ok .undetermined
      else (testHanded c).mapError .call >>= fun _ => replyVerdict {} (s.reply "test") :=
    passesTests_value rfl
  have hcan : c.CanTest := Toolchain.handed_eq_ok_iff.1 (by rfl)
  refine ⟨hreply, rfl, hvalue.trans ?_⟩
  rw [if_neg (by decide +kernel), handed_then_eq_ok_iff]
  exact ⟨hcan, replyVerdict_eq_success_iff.2 ⟨response, hreply, hreports⟩⟩

end ProjectAudit
