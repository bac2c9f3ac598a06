import ProjectAudit.Outcome.Stats

/-!
# What the counts of findings say

Every finding has one of three outcomes, so the three counts of a list of findings add up to its
length.  A count is positive exactly if some finding has the outcome, and from this follows what the
exit code and the conclusion of the summary say of the findings.

* `Stats.total_ofFindings`: the counts add up.
* `Stats.exitCode_eq_one_iff`, `Stats.exitCode_eq_two_iff`, `Stats.exitCode_eq_zero_iff`: the exit
  codes.
* `Stats.isSuccess_iff`: the conclusion.
-/

namespace ProjectAudit

namespace Stats

variable {findings : List Finding}

theorem count_cons (o : Outcome) (f : Finding) (findings : List Finding) :
    count o (f :: findings) = count o findings + if f.outcome = o then 1 else 0 := by
  simp [count, List.countP_cons]

/-- The counts of the three outcomes add up to the number of findings. -/
theorem count_add_count_add_count (findings : List Finding) :
    count .success findings + count .failure findings + count .undetermined findings =
      findings.length := by
  induction findings with
  | nil => rfl
  | cons f findings ih =>
    rw [count_cons, count_cons, count_cons, List.length_cons, ← ih]
    cases f.outcome <;> simp only [reduceCtorEq, if_true, if_false] <;> omega

theorem total_ofFindings (findings : List Finding) :
    (ofFindings findings).total = findings.length := by
  rw [total, ofFindings, ← count_add_count_add_count findings]
  simp

theorem count_pos_iff {o : Outcome} : 0 < count o findings ↔ ∃ f ∈ findings, f.outcome = o := by
  simp [count, List.countP_pos_iff]

theorem count_le_length (o : Outcome) (findings : List Finding) :
    count o findings ≤ findings.length :=
  List.countP_le_length

/-- Findings that all succeed are findings none of which fails or is undetermined. -/
theorem forall_success_iff : (∀ f ∈ findings, f.outcome = .success) ↔
    count .failure findings = 0 ∧ count .undetermined findings = 0 := by
  simp only [count, List.countP_eq_zero, ← forall_and, beq_iff_eq]
  refine forall_congr' fun f => ?_
  cases f.outcome <;> simp

/-! ## The exit code -/

/-- The overall outcome, by the counts. -/
theorem overall_ofFindings (findings : List Finding) :
    (ofFindings findings).overall =
      if 0 < count .failure findings then .failure
      else if 0 < count .undetermined findings then .undetermined
      else .success := by
  simp only [overall, ofFindings, gt_iff_lt, Int.natCast_pos]

theorem exitCode_eq_one_iff :
    (ofFindings findings).exitCode = 1 ↔ ∃ f ∈ findings, f.outcome = .failure := by
  rw [exitCode, overall_ofFindings, ← count_pos_iff]
  split
  · exact iff_of_true rfl ‹_›
  · refine iff_of_false ?_ ‹_›
    split <;> decide

theorem exitCode_eq_two_iff :
    (ofFindings findings).exitCode = 2 ↔
      (¬ ∃ f ∈ findings, f.outcome = .failure) ∧ ∃ f ∈ findings, f.outcome = .undetermined := by
  rw [exitCode, overall_ofFindings, ← count_pos_iff, ← count_pos_iff]
  split
  · exact iff_of_false (by decide) fun h => h.1 ‹_›
  · rename_i hfailure
    split
    · exact iff_of_true rfl ⟨hfailure, ‹_›⟩
    · exact iff_of_false (by decide) fun h => absurd h.2 ‹_›

theorem exitCode_eq_zero_iff :
    (ofFindings findings).exitCode = 0 ↔ ∀ f ∈ findings, f.outcome = .success := by
  rw [exitCode, overall_ofFindings, forall_success_iff]
  split
  · exact iff_of_false (by decide) fun h => absurd h.1 (by omega)
  · split
    · exact iff_of_false (by decide) fun h => absurd h.2 (by omega)
    · exact iff_of_true rfl (by omega)

/-! ## The conclusion -/

theorem isSuccess_iff :
    (ofFindings findings).isSuccess = true ↔ ∀ f ∈ findings, f.outcome = .success := by
  rw [forall_success_iff, isSuccess, ofFindings]
  simp

end Stats

end ProjectAudit
