import ProjectAudit.Proofs.Evaluation.Lines

/-!
# What an evaluation prints

Without notes, what stands on the stream is what stands in the report: a line for each rule, in the
order of the rules, with the rule's description and the label of what is recorded for it.  Nothing
that a rule does stands between the two.

* `Finding.line`: the line of a finding.
* `evaluateRules_printed`: rules come to findings, and print their lines.
-/

namespace ProjectAudit

/-- The line of a finding in the report. -/
def Finding.line (f : Finding) : Text :=
  f.description ++ " ... " ++ f.outcome.label ++ "\n"

theorem Rule.fullText_lineEvents {c : Context} (hverbose : c.verbose = false) (rule : Rule)
    (s : Cargo.Script) : Event.fullText (rule.lineEvents c s) = (rule.findingIn c s).line := by
  have hbeside := rule.isBeside_outcome c s
  rw [hverbose] at hbeside
  have hlabel : Event.fullText (rule.lineEvents c s) =
      rule.description ++ (Event.fullText ((rule.evaluate c s).events ++
        rule.complaint (rule.evaluate c s).value) ++
          Event.fullText [.report (" ... " ++ (rule.outcomeIn c s).label ++ "\n")]) := by
    rw [← Event.fullText_append]
    rfl
  rw [hlabel, Event.fullText_eq_nil hbeside, List.nil_append, Finding.line]
  simp [Event.fullText, findingIn]

/-- **Rules come to findings and print their lines**, in the order of the rules. -/
theorem evaluateRules_printed {ε : Type} {c : Context} (hverbose : c.verbose = false)
    (rules : List Rule) (s : Cargo.Script) :
    ∃ findings, ((evaluateRules c rules : Run ε (List Finding)) s).value = .ok findings ∧
      findings.map Finding.description = rules.map Rule.description ∧
      Event.fullText ((evaluateRules c rules : Run ε (List Finding)) s).events =
        findings.flatMap Finding.line := by
  induction rules generalizing s with
  | nil => exact ⟨[], rfl, rfl, rfl⟩
  | cons rule rules ih =>
    obtain ⟨findings, hvalue, hdescriptions, hprinted⟩ := ih (rule.evaluate c s).script
    refine ⟨rule.findingIn c s :: findings, ?_, ?_, ?_⟩
    · rw [evaluateRules_cons_apply, hvalue]
      rfl
    · rw [List.map_cons, List.map_cons, hdescriptions]
      rfl
    · rw [evaluateRules_cons_apply, Event.fullText_append, hprinted,
        rule.fullText_lineEvents hverbose, List.flatMap_cons]

end ProjectAudit
