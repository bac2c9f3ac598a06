import ProjectAudit.Proofs.Outcome.Counting
import Mathlib.Data.List.TFAE
import Mathlib.Order.Lattice
import Mathlib.Tactic.TFAE

/-!
# Findings put together

Findings of which the others follow the ones are counted by adding up.  Nothing in the counts
depends on the order of the findings, and what the counts say of a run as a whole is the gravest of
the outcomes, where a failure is graver than an undetermined rule and a success counts for nothing.
So the overall outcome of two lists is the graver one of theirs, and it is found from the two alone.

Whether a run succeeded is asked in two ways, once for counts that are zero and once for counts that
are not positive.  On the counts of findings both come to the same as the exit code, the wording of
the summary and the outcomes themselves (`Stats.success_tfae`).

* `Outcome.gravity`: the order of the outcomes.
* `Stats.ofFindings_append`, `Stats.ofFindings_perm`: counting by adding up.
* `Stats.overall_cons`, `Stats.overall_append`: the gravest outcome.
* `Stats.ofFindings_combines`: all of it.
-/

namespace ProjectAudit

/-! ## The order of the outcomes -/

namespace Outcome

/-- How much an outcome weighs. -/
def gravity : Outcome → Nat
  | .success => 0
  | .undetermined => 1
  | .failure => 2

theorem gravity_injective : Function.Injective gravity := by
  intro a b h
  cases a <;> cases b <;> first | rfl | cases h

/-- The graver outcome is the larger one. -/
instance : LinearOrder Outcome :=
  LinearOrder.lift' gravity gravity_injective

theorem success_lt_undetermined : success < undetermined :=
  Nat.zero_lt_one

theorem undetermined_lt_failure : undetermined < failure :=
  Nat.one_lt_two

theorem success_le (o : Outcome) : success ≤ o :=
  Nat.zero_le o.gravity

theorem le_failure (o : Outcome) : o ≤ failure := by
  cases o
  · exact success_le failure
  · exact le_rfl
  · exact undetermined_lt_failure.le

theorem exitCode_eq_zero_iff {o : Outcome} : o.exitCode = 0 ↔ o = .success := by
  cases o <;> decide

end Outcome

namespace Stats

variable {a b findings : List Finding}

/-! ## Adding up -/

instance : Add Stats where
  add s t := ⟨s.passed + t.passed, s.failed + t.failed, s.undetermined + t.undetermined⟩

theorem count_append (o : Outcome) (a b : List Finding) :
    count o (a ++ b) = count o a + count o b :=
  List.countP_append

/-- **The counts of findings add up.** -/
theorem ofFindings_append (a b : List Finding) :
    ofFindings (a ++ b) = ofFindings a + ofFindings b := by
  simp only [ofFindings, count_append, Int.natCast_add]
  rfl

/-- The order of the findings is of no account. -/
theorem ofFindings_perm (h : a.Perm b) : ofFindings a = ofFindings b := by
  have hcount : ∀ o, count o a = count o b := fun o => h.countP_eq _
  simp only [ofFindings, hcount]

/-! ## The gravest outcome -/

/-- One finding more makes the overall outcome as grave as its own, if it is not as grave yet. -/
theorem overall_cons (f : Finding) (findings : List Finding) :
    (ofFindings (f :: findings)).overall = max f.outcome (ofFindings findings).overall := by
  rw [overall_ofFindings, overall_ofFindings, count_cons, count_cons]
  cases f.outcome with
  | success =>
    simp only [reduceCtorEq, if_false, Nat.add_zero]
    exact (max_eq_right (Outcome.success_le _)).symm
  | failure =>
    simp only [if_true, Nat.succ_pos]
    exact (max_eq_left (Outcome.le_failure _)).symm
  | undetermined =>
    simp only [reduceCtorEq, if_false, if_true, Nat.add_zero, Nat.succ_pos]
    split_ifs
    · exact (max_eq_right Outcome.undetermined_lt_failure.le).symm
    · exact (max_self _).symm
    · exact (max_eq_left (Outcome.success_le _)).symm

/-- **The overall outcome of two lists** is the graver one of theirs. -/
theorem overall_append (a b : List Finding) :
    (ofFindings (a ++ b)).overall = max (ofFindings a).overall (ofFindings b).overall := by
  induction a with
  | nil => exact (max_eq_right (Outcome.success_le _)).symm
  | cons f a ih => rw [List.cons_append, overall_cons, ih, overall_cons, max_assoc]

/-! ## Success -/

/-- A summary begins with the word for a success only if it closes the report of one. -/
theorem isPrefix_summary_iff {s : Stats} :
    Text.ofString "culture result: ok." <+: s.summary ↔ s.isSuccess = true := by
  have hbegin : Text.ofString "culture result: ok." =
      Text.ofString "culture result: " ++ Text.ofString "ok." := by
    rw [← Text.ofString_append]
    rfl
  rw [hbegin, summary]
  simp only [List.append_assoc, List.prefix_append_right_inj]
  cases s.isSuccess with
  | false =>
    refine iff_of_false (fun hprefix => ?_) Bool.false_ne_true
    have hletter : CodePoint.char 'o' = CodePoint.char 'F' := (List.cons_prefix_cons.1 hprefix).1
    cases hletter
  | true => exact iff_of_true ⟨_, rfl⟩ rfl

/-- **Five ways to say that a run succeeded.** -/
theorem success_tfae (findings : List Finding) :
    List.TFAE [(ofFindings findings).isSuccess = true, (ofFindings findings).overall = .success,
      (ofFindings findings).exitCode = 0,
      Text.ofString "culture result: ok." <+: (ofFindings findings).summary,
      ∀ f ∈ findings, f.outcome = .success] := by
  tfae_have 1 ↔ 5 := isSuccess_iff
  tfae_have 2 ↔ 3 := Outcome.exitCode_eq_zero_iff.symm
  tfae_have 3 ↔ 5 := exitCode_eq_zero_iff
  tfae_have 4 ↔ 1 := isPrefix_summary_iff
  tfae_finish

/-- **Findings are counted by adding up.**  The counts of two lists together are the sums of theirs,
each finding is counted once, and the order of the findings is of no account.  The overall outcome
is the graver one of those of the two lists, a failure being graver than an undetermined rule and
that graver than a success, and no findings at all count as a success.  That nothing stands against
a success can be told by the counts, the overall outcome, the exit code, the summary and the
findings alike. -/
theorem ofFindings_combines (a b : List Finding) :
    ofFindings (a ++ b) = ofFindings a + ofFindings b ∧
      (ofFindings a).total = a.length ∧
      (∀ moved, a.Perm moved → ofFindings moved = ofFindings a) ∧
      (ofFindings (a ++ b)).overall = max (ofFindings a).overall (ofFindings b).overall ∧
      Outcome.success < Outcome.undetermined ∧ Outcome.undetermined < Outcome.failure ∧
      (ofFindings []).overall = .success ∧
      List.TFAE [(ofFindings a).isSuccess = true, (ofFindings a).overall = .success,
        (ofFindings a).exitCode = 0,
        Text.ofString "culture result: ok." <+: (ofFindings a).summary,
        ∀ f ∈ a, f.outcome = .success] :=
  ⟨ofFindings_append a b, total_ofFindings a, fun _ hperm => ofFindings_perm hperm.symm,
    overall_append a b, Outcome.success_lt_undetermined, Outcome.undetermined_lt_failure, rfl,
    success_tfae a⟩

/-- Three findings that fail, succeed and are undetermined, in two orders. -/
theorem ofFindings_combines_reordered :
    ofFindings [⟨"b", .success⟩, ⟨"a", .failure⟩] = ofFindings [⟨"a", .failure⟩, ⟨"b", .success⟩] ∧
      (ofFindings ([⟨"a", .failure⟩, ⟨"b", .success⟩] ++ [⟨"c", .undetermined⟩])).overall =
        .failure := by
  obtain ⟨-, -, hmoved, hgraver, -⟩ :=
    ofFindings_combines [⟨"a", .failure⟩, ⟨"b", .success⟩] [⟨"c", .undetermined⟩]
  exact ⟨hmoved _ (.swap _ _ _), hgraver.trans (by decide)⟩

end Stats

end ProjectAudit
