import ProjectAudit.Audit.Failure
import ProjectAudit.Proofs.Evaluation.Lines

/-!
# A run of rules completes

A rule is asked in its turn, with the script that the rules before it have left.  It may write notes
and then come to an outcome, hand back something that is no outcome, or end with a fault, and no
matter which, the run goes on: the turn has one finding, its text stands in the report, and the log
has a complaint exactly if there was no outcome.

What a rule has written before it failed stays, since a fault undoes nothing, and the label follows
it as it follows everything else.  So each view of a run is the concatenation of the views of its
turns (`Turn`), and no turn has to be told apart from the others to say what it leaves.

* `Rule.lineEvents_views`: what one turn leaves on each stream and in the log.
* `evaluateRules_turns`: a run leaves what its turns leave, one after the other.
* `evaluateRules_completes`: all views of a run, over the turns of its rules.
-/

namespace ProjectAudit

open Run

/-- The turn of a rule in a run, and how the rule ended. -/
structure Turn where
  rule : Rule
  ending : Ending RuleFault Answer

namespace Turn

/-- The outcome that is recorded: that of the rule, if the rule came to one. -/
def outcome (t : Turn) : Outcome :=
  match t.ending.value with
  | .ok (.outcome o) => o
  | .ok (.value _) | .error _ => .undetermined

/-- The notes that the rule has written. -/
def notes (t : Turn) : Text :=
  Event.noteText t.ending.events

/-- The error that is logged of a rule that came to no outcome. -/
def complaint? (t : Turn) : Option LogRecord :=
  match t.ending.value with
  | .ok (.outcome _) => none
  | .ok (.value v) =>
    some ⟨.error, .evaluation, "Rule " ++ Text.quoted t.rule.description ++ " returned " ++
      v.quotedText ++ ", not a RuleOutcome"⟩
  | .error _ =>
    some ⟨.error, .evaluation, "Rule " ++ Text.quoted t.rule.description ++
      " raised instead of returning an outcome"⟩

end Turn

/-- The turns of the rules of a run, each from the script that the one before it has left. -/
def turnsOf (c : Context) : List Rule → Cargo.Script → List Turn
  | [], _ => []
  | rule :: rules, s => ⟨rule, rule.evaluate c s⟩ :: turnsOf c rules (rule.evaluate c s).script

theorem map_rule_turnsOf (c : Context) (rules : List Rule) (s : Cargo.Script) :
    (turnsOf c rules s).map Turn.rule = rules := by
  induction rules generalizing s with
  | nil => rfl
  | cons rule rules ih => rw [turnsOf, List.map_cons, ih]

/-- In its turn a rule is evaluated. -/
theorem ending_of_mem_turnsOf {c : Context} {rules : List Rule} {s : Cargo.Script} {t : Turn}
    (h : t ∈ turnsOf c rules s) : ∃ script, t.ending = t.rule.evaluate c script := by
  induction rules generalizing s with
  | nil => exact absurd h List.not_mem_nil
  | cons rule rules ih =>
    rcases List.mem_cons.1 h with rfl | hlater
    · exact ⟨s, rfl⟩
    · exact ih hlater

/-! ## Rules of the user's own -/

/-- What a rule of the user's own comes to. -/
def CustomRule.answer (r : CustomRule) : Except RuleFault Answer :=
  match r.ending with
  | .outcome o => .ok (.outcome o)
  | .value v => .ok (.value v)
  | .raise => .error .raised

theorem Rule.writeNotes_apply (c : Context) (notes : List Text) (s : Cargo.Script) :
    writeNotes c notes s =
      ⟨.ok (), s, if c.verbose then notes.map fun n => .note (n ++ "\n") else []⟩ := by
  induction notes with
  | nil => cases c.verbose <;> rfl
  | cons n ns ih =>
    have hnote : (c.note n : Run RuleFault Unit) s =
        ⟨.ok (), s, if c.verbose then [.note (n ++ "\n")] else []⟩ := by
      rw [Context.note]
      split <;> rfl
    rw [writeNotes, bind_of_ok (by rw [hnote]), hnote]
    dsimp only
    rw [ih]
    cases c.verbose <;> rfl

/-- A rule of the user's own writes its notes, also if it gives up then, and asks the tool for
nothing. -/
theorem Rule.evaluate_custom_apply (r : CustomRule) (c : Context) (s : Cargo.Script) :
    (Rule.custom r).evaluate c s =
      ⟨r.answer, s, if c.verbose then r.notes.map fun n => .note (n ++ "\n") else []⟩ := by
  have hnotes := writeNotes_apply c r.notes s
  rw [evaluate, bind_of_ok (by rw [hnotes]), hnotes]
  cases hending : r.ending <;> simp [CustomRule.answer, hending, Run.fail]

/-! ## One turn -/

theorem Event.noteText_map_note (notes : List Text) :
    noteText (notes.map fun n => .note (n ++ "\n")) =
      notes.flatMap (fun n => (n ++ "\n" : Text)) := by
  induction notes with
  | nil => rfl
  | cons n notes ih => rw [List.map_cons, List.flatMap_cons, ← ih]; rfl

theorem Event.noteText_append (a b : List Event) : noteText (a ++ b) = noteText a ++ noteText b :=
  List.flatMap_append

theorem Event.reportText_append (a b : List Event) :
    reportText (a ++ b) = reportText a ++ reportText b :=
  List.flatMap_append

/-- What stands beside the report shows on a stream for both as notes. -/
theorem Event.views_of_isBeside {events : List Event} {verbose : Bool}
    (h : ∀ e ∈ events, e.IsBeside verbose) :
    reportText events = [] ∧ fullText events = noteText events := by
  induction events with
  | nil => exact ⟨rfl, rfl⟩
  | cons e events ih =>
    obtain ⟨he, hrest⟩ := List.forall_mem_cons.1 h
    obtain ⟨hreport, hfull⟩ := ih hrest
    have hsplit : e :: events = [e] ++ events := rfl
    rw [hsplit, reportText_append, fullText_append, noteText_append, hreport, hfull]
    cases e with
    | report text => exact he.elim
    | note text => exact ⟨rfl, rfl⟩
    | started call => exact ⟨rfl, rfl⟩
    | logged record => exact ⟨rfl, rfl⟩

/-- Without the wish for them there are no notes. -/
theorem Event.noteText_eq_nil {events : List Event} (h : ∀ e ∈ events, e.IsBeside false) :
    noteText events = [] := by
  rw [← (views_of_isBeside h).2]
  exact fullText_eq_nil h

namespace Rule

variable (rule : Rule) (c : Context) (s : Cargo.Script)

theorem beside_evaluate : Beside c.verbose (rule.evaluate c) :=
  (rule.stepwise c).beside c.verbose

/-- A rule logs no errors by itself. -/
theorem log_error_evaluate : Event.log .error (rule.evaluate c s).events = [] :=
  (rule.stepwise c).logsBelow (by decide) c.verbose s

theorem noteText_complaint (answer : Except RuleFault Answer) :
    Event.noteText (rule.complaint answer) = [] := by
  rcases answer with fault | (o | v) <;> rfl

theorem outcomeIn_eq : rule.outcomeIn c s = Turn.outcome ⟨rule, rule.evaluate c s⟩ := by
  rw [outcomeIn, Turn.outcome]
  rcases (rule.evaluate c s).value with fault | (o | v) <;> rfl

/-- **What one turn leaves**: the line of the rule, its notes between the two halves of the line on
a stream that takes both, and a complaint if there is no outcome. -/
theorem lineEvents_views :
    let t : Turn := ⟨rule, rule.evaluate c s⟩
    Event.log .error (rule.lineEvents c s) = t.complaint?.toList ∧
      Event.reportText (rule.lineEvents c s) =
        rule.description ++ " ... " ++ t.outcome.label ++ "\n" ∧
      Event.noteText (rule.lineEvents c s) = t.notes ∧
      Event.fullText (rule.lineEvents c s) =
        rule.description ++ t.notes ++ " ... " ++ t.outcome.label ++ "\n" := by
  intro t
  have hcomplaint : Event.log .error (rule.complaint (rule.evaluate c s).value) =
      t.complaint?.toList := by
    rw [Turn.complaint?]
    rcases (rule.evaluate c s).value with fault | (o | v) <;> rfl
  have hbetween := Event.views_of_isBeside (rule.isBeside_outcome c s)
  rw [Event.noteText_append, rule.noteText_complaint, List.append_nil] at hbetween
  have hsplit : rule.lineEvents c s = [.report rule.description] ++
      ((rule.evaluate c s).events ++ rule.complaint (rule.evaluate c s).value) ++
        [.report (" ... " ++ t.outcome.label ++ "\n")] := by
    rw [lineEvents, outcomeIn_eq]
    rfl
  rw [hsplit]
  refine ⟨?_, ?_, ?_, ?_⟩
  · rw [Event.log_append, Event.log_append, Event.log_append, rule.log_error_evaluate, hcomplaint]
    exact List.append_nil _
  · rw [Event.reportText_append, Event.reportText_append, hbetween.1]
    simp [Event.reportText]
  · rw [Event.noteText_append, Event.noteText_append, Event.noteText_append,
      rule.noteText_complaint, List.append_nil]
    exact List.append_nil _
  · rw [Event.fullText_append, Event.fullText_append, hbetween.2]
    simp [Event.fullText, Turn.notes, t]

end Rule

/-! ## The run -/

variable {ε : Type}

/-- A run of rules has a finding for each turn, and leaves what its turns leave. -/
theorem evaluateRules_turns (c : Context) (rules : List Rule) (s : Cargo.Script) :
    let run := (evaluateRules c rules : Run ε (List Finding)) s
    let turns := turnsOf c rules s
    run.value = .ok (turns.map fun t => ⟨t.rule.description, t.outcome⟩) ∧
      Event.log .error run.events = turns.filterMap Turn.complaint? ∧
      Event.reportText run.events = turns.flatMap (fun t =>
        (t.rule.description ++ " ... " ++ t.outcome.label ++ "\n" : Text)) ∧
      Event.noteText run.events = turns.flatMap Turn.notes ∧
      Event.fullText run.events = turns.flatMap (fun t =>
        (t.rule.description ++ t.notes ++ " ... " ++ t.outcome.label ++ "\n" : Text)) := by
  induction rules generalizing s with
  | nil => exact ⟨rfl, rfl, rfl, rfl, rfl⟩
  | cons rule rules ih =>
    obtain ⟨hvalue, hlog, hreport, hnotes, hfull⟩ := ih (rule.evaluate c s).script
    obtain ⟨hlog', hreport', hnotes', hfull'⟩ := rule.lineEvents_views c s
    dsimp only at hvalue hlog hreport hnotes hfull ⊢
    rw [evaluateRules_cons_apply, turnsOf, hvalue]
    refine ⟨?_, ?_, ?_, ?_, ?_⟩
    · rw [Rule.findingIn, rule.outcomeIn_eq c s]
      rfl
    · rw [Event.log_append, hlog, hlog', List.filterMap_cons]
      cases Turn.complaint? ⟨rule, rule.evaluate c s⟩ <;> rfl
    · rw [Event.reportText_append, hreport, hreport', List.flatMap_cons]
    · rw [Event.noteText_append, hnotes, hnotes', List.flatMap_cons]
    · rw [Event.fullText_append, hfull, hfull', List.flatMap_cons]

/-- **A run of rules completes**, whatever its rules do.  It has one finding for each rule, in their
order, and each rule that comes to no outcome is reported by one error.  On the stream of the report
a rule has its description and its label, on that of the notes its notes, and on a stream for both
the notes stand between the two.  A rule of the user's own leaves its notes if they are wanted, no
matter how it ends after them. -/
theorem evaluateRules_completes (c : Context) (rules : List Rule) (s : Cargo.Script) :
    let run := (evaluateRules c rules : Run ε (List Finding)) s
    let turns := turnsOf c rules s
    turns.map Turn.rule = rules ∧
      run.value = .ok (turns.map fun t => ⟨t.rule.description, t.outcome⟩) ∧
      Event.log .error run.events = turns.filterMap Turn.complaint? ∧
      Event.reportText run.events = turns.flatMap (fun t =>
        (t.rule.description ++ " ... " ++ t.outcome.label ++ "\n" : Text)) ∧
      Event.noteText run.events = turns.flatMap Turn.notes ∧
      Event.fullText run.events = turns.flatMap (fun t =>
        (t.rule.description ++ t.notes ++ " ... " ++ t.outcome.label ++ "\n" : Text)) ∧
      ∀ t ∈ turns, (∃ script, t.ending = t.rule.evaluate c script) ∧
        (c.verbose = false → t.notes = []) ∧
        ∀ r : CustomRule, t.rule = .custom r →
          t.ending.value = r.answer ∧
            t.notes = if c.verbose then r.notes.flatMap (fun n => (n ++ "\n" : Text)) else [] := by
  intro run turns
  obtain ⟨hvalue, hlog, hreport, hnotes, hfull⟩ := evaluateRules_turns (ε := ε) c rules s
  refine ⟨map_rule_turnsOf c rules s, hvalue, hlog, hreport, hnotes, hfull, fun t ht => ?_⟩
  obtain ⟨script, hending⟩ := ending_of_mem_turnsOf ht
  refine ⟨⟨script, hending⟩, fun hquiet => ?_, fun r hr => ?_⟩
  · rw [Turn.notes, hending]
    have hbeside := t.rule.beside_evaluate c script
    rw [hquiet] at hbeside
    exact Event.noteText_eq_nil hbeside
  · rw [Turn.notes, hending, hr, Rule.evaluate_custom_apply]
    refine ⟨rfl, ?_⟩
    cases c.verbose
    · rfl
    · exact Event.noteText_map_note r.notes

/-- A rule that gives up after two notes, and one that hands back the word for a success. -/
theorem evaluateRules_completes_givenUp :
    let c : Context := {
      manifest := .ofText "/p/Cargo.toml"
      metadataResult := { status := .invalid }
      verbose := true }
    let unfinished : CustomRule := ⟨"Is finished", ["not yet", "nor soon"], .raise⟩
    let rules : List Rule := [.custom unfinished, .custom ⟨"Is done", [], .value (.str "SUCCESS")⟩]
    let turns := turnsOf c rules []
    let run := (evaluateRules c rules : Run Failure (List Finding)) []
    ∃ t ∈ turns, t.rule = .custom unfinished ∧ t.ending.value = unfinished.answer ∧
      t.notes = "not yet\nnor soon\n" ∧
      run.value = .ok [⟨"Is finished", .undetermined⟩, ⟨"Is done", .undetermined⟩] ∧
      (Event.log .error run.events).length = 2 ∧
      Event.fullText run.events =
        "Is finishednot yet\nnor soon\n ... undetermined\nIs done ... undetermined\n" := by
  intro c unfinished rules turns run
  obtain ⟨-, hvalue, hlog, -, -, hfull, hturns⟩ := evaluateRules_completes (ε := Failure) c rules []
  have hmem : ⟨.custom unfinished, (Rule.custom unfinished).evaluate c []⟩ ∈ turns := .head _
  obtain ⟨hanswer, hnotes⟩ := (hturns _ hmem).2.2 unfinished rfl
  refine ⟨_, hmem, rfl, hanswer, hnotes.trans (by decide +kernel), hvalue.trans (by rfl), ?_,
    hfull.trans (by decide +kernel)⟩
  rw [hlog]
  decide

end ProjectAudit
