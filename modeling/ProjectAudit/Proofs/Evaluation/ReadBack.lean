import ProjectAudit.Proofs.Evaluation.Printed
import ProjectAudit.Proofs.Evaluation.Turns
import ProjectAudit.Proofs.Text.Lines

/-!
# Reading a report back

The line of a rule is its description, three dots and a label, and nothing in the description is
escaped: it may hold three dots, a label, or all that another line ends with.  Still a report can be
read.  No label has a line feed in it, so if no description has one, the lines are those of the
report; and since no two labels end with the same letter, the last letter of a line tells its label,
and with it where the description ends.

A report is read so by `Finding.readReport?`, which knows nothing of the rules.  What it reads is
what the rules came to, so two reports are the same text only if they are of the same findings.

* `Finding.ofLine?_eq_some_iff`: the findings of a line.
* `Finding.readReport?_flatMap_line`: the findings of a report.
* `evaluateRules_readBack`: what two runs print, and what they come to.
-/

namespace ProjectAudit

/-! ## Lines -/

/-- What a line of the report ends with. -/
def Outcome.ending (o : Outcome) : Text :=
  " ... " ++ o.label

namespace Finding

/-- The line of a finding, without its end. -/
def body (f : Finding) : Text :=
  f.description ++ f.outcome.ending

/-- Reads a line: the label that it ends with, and what stands in front. -/
def ofLine? (line : Text) : Option Finding :=
  Outcome.all.findSome? fun o =>
    if o.ending <:+ line then some ⟨line.take (line.length - o.ending.length), o⟩ else none

/-- Reads a report, line by line.  Behind the last line there is nothing. -/
def readReport? (report : Text) : Option (List Finding) :=
  (Text.splitNewlines report).dropLast.mapM ofLine?

theorem line_eq (f : Finding) : f.line = f.body ++ [.char '\n'] := by
  rw [line, body, Outcome.ending, List.append_assoc, List.append_assoc, List.append_assoc]
  rfl

/-- No two labels end with the same letter. -/
theorem outcome_eq_of_ending {o o' : Outcome} {front front' : Text}
    (h : front ++ o.ending = front' ++ o'.ending) : o = o' := by
  have hsome : ∀ o : Outcome, o.ending ≠ [] := fun o => by cases o <;> decide
  have hlast : o.ending.getLast? = o'.ending.getLast? :=
    calc
      o.ending.getLast? = (front ++ o.ending).getLast? :=
        (List.getLast?_append_of_ne_nil front (hsome o)).symm
      _ = (front' ++ o'.ending).getLast? := congrArg List.getLast? h
      _ = o'.ending.getLast? := List.getLast?_append_of_ne_nil front' (hsome o')
  revert hlast
  cases o <;> cases o' <;> decide

/-- **A line tells its finding.** -/
theorem body_injective : Function.Injective body := by
  rintro ⟨description, o⟩ ⟨description', o'⟩ h
  obtain rfl := outcome_eq_of_ending h
  obtain rfl : description = description' := List.append_cancel_right h
  rfl

/-- **A line is read as the finding that it is the line of**, and is of no finding if it cannot be
read. -/
theorem ofLine?_eq_some_iff {text : Text} {f : Finding} :
    ofLine? text = some f ↔ text = f.body := by
  have hread : ∀ {f : Finding}, ofLine? text = some f → text = f.body := by
    intro f h
    obtain ⟨o, -, ho⟩ := List.exists_of_findSome?_eq_some h
    obtain ⟨⟨front, rfl⟩, hf⟩ := Option.ite_none_right_eq_some.1 ho
    obtain rfl := Option.some.inj hf
    rw [List.length_append, Nat.add_sub_cancel, List.take_left, body]
  refine ⟨hread, ?_⟩
  rintro rfl
  cases hline : ofLine? f.body with
  | some g => rw [body_injective (hread hline)]
  | none =>
    -- the label of the finding is among those that are looked for
    have hmem : f.outcome ∈ Outcome.all := by
      cases f.outcome <;> decide
    have hnone := List.findSome?_eq_none_iff.1 hline f.outcome hmem
    rw [if_pos ⟨f.description, rfl⟩] at hnone
    cases hnone

/-! ## Reports -/

variable {findings : List Finding}

theorem newline_not_mem_body {f : Finding} (h : .char '\n' ∉ f.description) :
    .char '\n' ∉ f.body := by
  have hending : .char '\n' ∉ f.outcome.ending := by
    cases f.outcome <;> decide
  exact fun hmem => (List.mem_append.1 hmem).elim h hending

/-- The lines of a report are those of its findings. -/
theorem splitNewlines_flatMap_line (h : ∀ f ∈ findings, .char '\n' ∉ f.description) :
    Text.splitNewlines (findings.flatMap line) = findings.map body ++ [[]] := by
  induction findings with
  | nil => rfl
  | cons f findings ih =>
    obtain ⟨hf, hrest⟩ := List.forall_mem_cons.1 h
    have hbody : Text.splitNewlines f.body = [f.body] :=
      Text.splitNewlines_of_unbroken fun c hc heq => newline_not_mem_body hf (heq ▸ hc)
    rw [List.flatMap_cons, line_eq, List.append_assoc, List.singleton_append,
      Text.splitNewlines_append_newline, hbody, ih hrest]
    rfl

/-- **A report is read as the findings that it is the report of.** -/
theorem readReport?_flatMap_line (h : ∀ f ∈ findings, .char '\n' ∉ f.description) :
    readReport? (findings.flatMap line) = some findings := by
  rw [readReport?, splitNewlines_flatMap_line h, List.dropLast_concat]
  clear h
  induction findings with
  | nil => rfl
  | cons f findings ih =>
    rw [List.map_cons, List.mapM_cons, ofLine?_eq_some_iff.2 rfl, ih]
    rfl

end Finding

/-! ## Runs -/

variable {ε : Type} {c c' : Context} {rules rules' : List Rule}

/-- What a run without notes prints is the report of what it comes to, which can be read back. -/
theorem evaluateRules_report (hquiet : c.verbose = false)
    (hplain : ∀ rule ∈ rules, .char '\n' ∉ rule.description) (s : Cargo.Script) :
    let run := (evaluateRules c rules : Run ε (List Finding)) s
    ∃ findings, run.value = .ok findings ∧
      findings.map Finding.description = rules.map Rule.description ∧
      Event.reportText run.events = findings.flatMap Finding.line ∧
      Event.fullText run.events = findings.flatMap Finding.line ∧
      Finding.readReport? (findings.flatMap Finding.line) = some findings := by
  intro run
  obtain ⟨findings, hvalue, hdescriptions, hfull⟩ :=
    evaluateRules_printed (ε := ε) hquiet rules s
  obtain ⟨hturns, -, hreport, -, -⟩ := evaluateRules_turns (ε := ε) c rules s
  have hfindings : findings = (turnsOf c rules s).map fun t => ⟨t.rule.description, t.outcome⟩ :=
    Except.ok.inj (hvalue.symm.trans hturns)
  refine ⟨findings, hvalue, hdescriptions, ?_, hfull, Finding.readReport?_flatMap_line ?_⟩
  · rw [hreport, hfindings, List.flatMap_map]
    rfl
  · intro f hf
    have hmem : f.description ∈ rules.map Rule.description :=
      hdescriptions ▸ List.mem_map_of_mem hf
    obtain ⟨rule, hrule, hdescription⟩ := List.mem_map.1 hmem
    exact hdescription ▸ hplain rule hrule

/-- **Reports tell what they are of.**

Two runs without notes, each of rules whose descriptions have no line feed in them, come to findings
with the descriptions of their rules.  What a run prints can be read, by a reader that knows the
text alone, as the findings of the run.  So the texts are the same exactly if the findings are. -/
theorem evaluateRules_readBack (hquiet : c.verbose = false) (hquiet' : c'.verbose = false)
    (hplain : ∀ rule ∈ rules, .char '\n' ∉ rule.description)
    (hplain' : ∀ rule ∈ rules', .char '\n' ∉ rule.description) (s s' : Cargo.Script) :
    let run := (evaluateRules c rules : Run ε (List Finding)) s
    let run' := (evaluateRules c' rules' : Run ε (List Finding)) s'
    ∃ findings findings', run.value = .ok findings ∧ run'.value = .ok findings' ∧
      findings.map Finding.description = rules.map Rule.description ∧
      findings'.map Finding.description = rules'.map Rule.description ∧
      Event.fullText run.events = Event.reportText run.events ∧
      Event.fullText run'.events = Event.reportText run'.events ∧
      Finding.readReport? (Event.reportText run.events) = some findings ∧
      Finding.readReport? (Event.reportText run'.events) = some findings' ∧
      (Event.reportText run.events = Event.reportText run'.events ↔ findings = findings') := by
  intro run run'
  obtain ⟨findings, hvalue, hrules, hreport, hfull, hread⟩ :=
    evaluateRules_report (ε := ε) hquiet hplain s
  obtain ⟨findings', hvalue', hrules', hreport', hfull', hread'⟩ :=
    evaluateRules_report (ε := ε) hquiet' hplain' s'
  have hsame : Event.reportText run.events = Event.reportText run'.events ↔
      findings = findings' := by
    rw [hreport, hreport']
    constructor
    · intro htext
      rw [htext] at hread
      exact Option.some.inj (hread.symm.trans hread')
    · exact congrArg _
  exact ⟨findings, findings', hvalue, hvalue', hrules, hrules', hfull.trans hreport.symm,
    hfull'.trans hreport'.symm, hreport ▸ hread, hreport' ▸ hread', hsame⟩

/-- Descriptions that hold labels and all that a line ends with, against a plain one. -/
theorem evaluateRules_readBack_labels :
    let c : Context := {
      manifest := .ofText "/p/Cargo.toml"
      metadataResult := { status := .invalid } }
    let rules : List Rule := [.custom ⟨"a ... ok", [], .outcome .failure⟩,
      .custom ⟨" ... FAILED", ["gives up"], .raise⟩]
    let rules' : List Rule := [.custom ⟨"a", [], .outcome .success⟩]
    let run := (evaluateRules c rules : Run Failure (List Finding)) []
    let run' := (evaluateRules c rules' : Run Failure (List Finding)) []
    (∀ rule ∈ rules, .char '\n' ∉ rule.description) ∧
      (∀ rule ∈ rules', .char '\n' ∉ rule.description) ∧
      Event.reportText run.events = "a ... ok ... FAILED\n ... FAILED ... undetermined\n" ∧
      Finding.readReport? (Event.reportText run.events) =
        some [⟨"a ... ok", .failure⟩, ⟨" ... FAILED", .undetermined⟩] ∧
      Event.reportText run.events ≠ Event.reportText run'.events := by
  intro c rules rules' run run'
  have hplain : ∀ rule ∈ rules, .char '\n' ∉ rule.description := by decide
  have hplain' : ∀ rule ∈ rules', .char '\n' ∉ rule.description := by decide
  have hquiet : c.verbose = false := rfl
  obtain ⟨findings, findings', hvalue, hvalue', -, -, -, -, hread, -, hsame⟩ :=
    evaluateRules_readBack (ε := Failure) hquiet hquiet hplain hplain' [] []
  obtain rfl : findings = [⟨"a ... ok", .failure⟩, ⟨" ... FAILED", .undetermined⟩] :=
    Except.ok.inj (hvalue.symm.trans (by rfl))
  obtain rfl : findings' = [⟨"a", .success⟩] := Except.ok.inj (hvalue'.symm.trans (by rfl))
  exact ⟨hplain, hplain', by decide +kernel, hread, fun htext => absurd (hsame.1 htext) (by decide)⟩

end ProjectAudit
