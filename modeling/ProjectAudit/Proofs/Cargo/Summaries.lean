import ProjectAudit.Cargo.TestSummary
import ProjectAudit.Proofs.Run.Faulting
import ProjectAudit.Proofs.Text.Scan
import Mathlib.Algebra.GroupWithZero.Nat

/-!
# Summary lines

What the tests print is read line by line.  A line is a summary if it begins as one: with the word
of its result, the count of tests that passed and the count of those that failed.  Reading a line
undoes printing it, whatever follows, so a line is a summary of one result at most, and what is read
from a text is the list of its summaries.

The counts are added up over all of them.  They are never taken back, and a binary that failed
counts as a failure even if none of its tests did, so one summary of a failure shows in the sum.

* `BinaryResult.ofLine?_eq_some_iff`: the lines that are read, and as what.
* `SummariesOf`: the summaries of lines, in their order.
* `TestSummary.totals_eq_ok_iff`, `TestSummary.ofOutput_eq_ok_iff`: what their counts add up to.
* `TestSummary.failed_eq_zero_iff`: when no failure is counted.
-/

namespace ProjectAudit

namespace Cargo

deriving instance DecidableEq for BinaryResult

namespace BinaryResult

/-- What stands behind the result in a summary line. -/
def countsText (passed failed : Text) : Text :=
  ". " ++ (passed ++ (" passed; " ++ (failed ++ (" failed;" : Text))))

/-- How a summary line begins. -/
def text (r : BinaryResult) : Text :=
  "test result: " ++ ((if r.ok then "ok" else "FAILED" : String) ++ countsText r.passed r.failed)

/-- A count, as it is printed: decimal digits of any script, and at least one. -/
def IsCount (digits : Text) : Prop :=
  digits ≠ [] ∧ ∀ c ∈ digits, Text.isDecimal c = true

/-- The line is a summary: it begins with the result and its counts, and anything may follow. -/
structure Summarizes (line : Text) (r : BinaryResult) : Prop where
  passed : IsCount r.passed
  failed : IsCount r.failed
  begins : ∃ rest, line = r.text ++ rest

variable {line : Text} {r : BinaryResult}

/-- Reads what stands behind the result in a summary line. -/
def readCounts (ok : Bool) (s : Text) : Option BinaryResult := do
  let r ← Text.afterWord? ". " s
  let (passed, r) ← Text.spanSome? Text.isDecimal r
  let r ← Text.afterWord? " passed; " r
  let (failed, r) ← Text.spanSome? Text.isDecimal r
  let _ ← Text.afterWord? " failed;" r
  return { ok, passed, failed }

theorem readCounts_eq_some_iff {ok : Bool} {s : Text} :
    readCounts ok s = some r ↔ r.ok = ok ∧ IsCount r.passed ∧ IsCount r.failed ∧
      ∃ rest, s = countsText r.passed r.failed ++ rest := by
  constructor
  · intro h
    simp only [readCounts, Option.bind_eq_bind, Option.bind_eq_some_iff] at h
    obtain ⟨s₁, h₁, ⟨passed, s₂⟩, h₂, s₃, h₃, ⟨failed, s₄⟩, h₄, rest, h₅, hr⟩ := h
    obtain rfl := Option.some.inj hr
    obtain rfl := Text.afterWord?_eq_some h₁
    obtain ⟨hpassed, hpassedDecimal, rfl⟩ := Text.spanSome?_eq_some h₂
    obtain rfl := Text.afterWord?_eq_some h₃
    obtain ⟨hfailed, hfailedDecimal, rfl⟩ := Text.spanSome?_eq_some h₄
    obtain rfl := Text.afterWord?_eq_some h₅
    refine ⟨rfl, ⟨hpassed, hpassedDecimal⟩, ⟨hfailed, hfailedDecimal⟩, rest, ?_⟩
    simp only [countsText, List.append_assoc]
  · rintro ⟨rfl, hpassed, hfailed, rest, rfl⟩
    have hspan : ∀ {digits more : Text}, IsCount digits → more.head? = some (.char ' ') →
        Text.spanSome? Text.isDecimal (digits ++ more) = some (digits, more) := by
      intro digits more hdigits hmore
      refine Text.spanSome?_append hdigits.1 hdigits.2 ?_
      rw [hmore]
      rintro c ⟨⟩
      decide
    simp only [readCounts, countsText, List.append_assoc, Text.afterWord?_append,
      Option.bind_eq_bind, Option.bind_some]
    rw [hspan hpassed (by rfl), Option.bind_some, Text.afterWord?_append, Option.bind_some,
      hspan hfailed (by rfl), Option.bind_some, Text.afterWord?_append]
    rfl

/-- **A line is read as a result** exactly if it is a summary of it. -/
theorem ofLine?_eq_some_iff : ofLine? line = some r ↔ Summarizes line r := by
  have hread : ofLine? line = (Text.afterWord? "test result: " line).bind fun s =>
      (Text.afterWord? "ok" s).elim ((Text.afterWord? "FAILED" s).bind (readCounts false))
        (readCounts true) := by
    rw [ofLine?]
    refine Option.bind_congr fun s _ => ?_
    cases Text.afterWord? "ok" s with
    | some s => rfl
    | none => cases Text.afterWord? "FAILED" s <;> rfl
  rw [hread]
  constructor
  · intro hline
    obtain ⟨s, hs, hresult⟩ := Option.bind_eq_some_iff.1 hline
    obtain rfl := Text.afterWord?_eq_some hs
    cases hword : Text.afterWord? "ok" s with
    | some s' =>
      rw [hword, Option.elim_some] at hresult
      obtain ⟨hok, hpassed, hfailed, rest, rfl⟩ := readCounts_eq_some_iff.1 hresult
      obtain rfl := Text.afterWord?_eq_some hword
      refine ⟨hpassed, hfailed, rest, ?_⟩
      rw [text, hok, if_pos rfl, List.append_assoc, List.append_assoc]
    | none =>
      rw [hword, Option.elim_none] at hresult
      obtain ⟨s', hs', hcounts⟩ := Option.bind_eq_some_iff.1 hresult
      obtain ⟨hok, hpassed, hfailed, rest, rfl⟩ := readCounts_eq_some_iff.1 hcounts
      obtain rfl := Text.afterWord?_eq_some hs'
      refine ⟨hpassed, hfailed, rest, ?_⟩
      rw [text, hok, if_neg Bool.false_ne_true, List.append_assoc, List.append_assoc]
  · rintro ⟨hpassed, hfailed, rest, rfl⟩
    have hcounts : readCounts r.ok (countsText r.passed r.failed ++ rest) = some r :=
      readCounts_eq_some_iff.2 ⟨rfl, hpassed, hfailed, rest, rfl⟩
    rw [text, List.append_assoc, List.append_assoc, Text.afterWord?_append, Option.bind_some]
    cases hok : r.ok with
    | true =>
      rw [hok] at hcounts
      rw [if_pos rfl, Text.afterWord?_append, Option.elim_some]
      exact hcounts
    | false =>
      rw [hok] at hcounts
      have hfirst : Text.afterWord? "ok" ((if false = true then "ok" else "FAILED" : String) ++
          (countsText r.passed r.failed ++ rest)) = none := by
        rfl
      rw [hfirst, Option.elim_none, if_neg Bool.false_ne_true, Text.afterWord?_append]
      exact hcounts

/-! ## Counts -/

/-- The number of tests that passed. -/
def passedCount (r : BinaryResult) : Nat :=
  Text.numeralValue r.passed

/-- The number of tests that failed. -/
def failedCount (r : BinaryResult) : Nat :=
  Text.numeralValue r.failed

/-- The failures that a summary counts for, which are one at least if the binary failed. -/
def failures (r : BinaryResult) : Nat :=
  if !r.ok && r.failedCount == 0 then 1 else r.failedCount

/-- Neither count has more digits than a numeral may have. -/
def IsReadable (r : BinaryResult) : Prop :=
  r.passed.length ≤ Text.maxDigits ∧ r.failed.length ≤ Text.maxDigits

instance (r : BinaryResult) : Decidable r.IsReadable :=
  inferInstanceAs (Decidable (r.passed.length ≤ Text.maxDigits ∧ r.failed.length ≤ Text.maxDigits))

/-- No failure is counted exactly if the binary is said to be fine and none of its tests failed. -/
theorem failures_eq_zero_iff : r.failures = 0 ↔ r.ok = true ∧ r.failedCount = 0 := by
  rw [failures]
  cases r.ok with
  | true => simp
  | false =>
    by_cases hzero : r.failedCount = 0
    · simp [hzero]
    · simp [hzero]

end BinaryResult

open BinaryResult

/-- The summaries of lines, in the order of the lines; a line that is none is passed over. -/
inductive SummariesOf : List Text → List BinaryResult → Prop
  | nil : SummariesOf [] []
  | summary {line : Text} {lines : List Text} {r : BinaryResult} {results : List BinaryResult}
    (hline : Summarizes line r) (hrest : SummariesOf lines results) :
    SummariesOf (line :: lines) (r :: results)
  | other {line : Text} {lines : List Text} {results : List BinaryResult}
    (hline : ∀ r, ¬ Summarizes line r) (hrest : SummariesOf lines results) :
    SummariesOf (line :: lines) results

/-- The summaries of lines are what is read from them. -/
theorem summariesOf_iff {lines : List Text} {results : List BinaryResult} :
    SummariesOf lines results ↔ lines.filterMap ofLine? = results := by
  constructor
  · intro hresults
    induction hresults with
    | nil => rfl
    | summary hline _ ih =>
      rw [List.filterMap_cons_some (ofLine?_eq_some_iff.2 hline), ih]
    | @other line _ _ hline _ ih =>
      have hnone : ofLine? line = none :=
        Option.eq_none_iff_forall_ne_some.2 fun r hr => hline r (ofLine?_eq_some_iff.1 hr)
      rw [List.filterMap_cons_none hnone, ih]
  · rintro rfl
    induction lines with
    | nil => exact .nil
    | cons line lines ih =>
      cases hline : ofLine? line with
      | none =>
        rw [List.filterMap_cons_none hline]
        refine .other (fun r hr => ?_) ih
        cases hline.symm.trans (ofLine?_eq_some_iff.2 hr)
      | some r =>
        rw [List.filterMap_cons_some hline]
        exact .summary (ofLine?_eq_some_iff.1 hline) ih

namespace TestSummary

/-- The counts of results, added up. -/
def ofResults (results : List BinaryResult) : TestSummary where
  passed := (results.map passedCount).sum
  failed := (results.map failures).sum
  binaries := results.length

theorem failed_eq_zero_iff {results : List BinaryResult} :
    (ofResults results).failed = 0 ↔ ∀ r ∈ results, r.ok = true ∧ r.failedCount = 0 := by
  induction results with
  | nil => simp [ofResults]
  | cons r results ih =>
    rw [List.forall_mem_cons, ← ih, ← failures_eq_zero_iff]
    exact Nat.add_eq_zero_iff

theorem binaries_eq_zero_iff {results : List BinaryResult} :
    (ofResults results).binaries = 0 ↔ results = [] :=
  List.length_eq_zero_iff

theorem ofBinary_eq_ok_iff {r : BinaryResult} {summary : TestSummary} :
    ofBinary r = .ok summary ↔ r.IsReadable ∧ summary = ofResults [r] := by
  rw [ofBinary, Text.boundedNumeral?, Text.boundedNumeral?, IsReadable]
  by_cases hpassed : r.passed.length ≤ Text.maxDigits
  · by_cases hfailed : r.failed.length ≤ Text.maxDigits
    · rw [if_pos hpassed, if_pos hfailed, and_iff_right ⟨hpassed, hfailed⟩]
      exact ⟨fun h => (Except.ok.inj h).symm, fun h => congrArg Except.ok h.symm⟩
    · simp [hpassed, hfailed]
  · simp [hpassed]

theorem add_ofResults (summary : TestSummary) (r : BinaryResult) (results : List BinaryResult) :
    add (add summary (ofResults [r])) (ofResults results) =
      add summary (ofResults (r :: results)) := by
  simp only [add, ofResults, List.map_cons, List.map_nil, List.sum_cons, List.sum_nil,
    List.length_cons, List.length_nil, TestSummary.mk.injEq]
  omega

/-- What the counts of results add up to, each of which has to be readable. -/
theorem mapM_ofBinary_eq_ok_iff {results : List BinaryResult} {summaries : List TestSummary} :
    results.mapM ofBinary = .ok summaries ↔
      (∀ r ∈ results, r.IsReadable) ∧ summaries = results.map fun r => ofResults [r] := by
  induction results generalizing summaries with
  | nil => simp [pure, Except.pure, eq_comm]
  | cons r results ih =>
    rw [List.mapM_cons, bind_eq_ok, List.forall_mem_cons, List.map_cons]
    constructor
    · rintro ⟨first, hfirst, hsecond⟩
      obtain ⟨rest, hrest, hdone⟩ := bind_eq_ok.1 hsecond
      obtain rfl := Except.ok.inj hdone
      obtain ⟨hreadable, rfl⟩ := ofBinary_eq_ok_iff.1 hfirst
      obtain ⟨hall, rfl⟩ := ih.1 hrest
      exact ⟨⟨hreadable, hall⟩, rfl⟩
    · rintro ⟨⟨hreadable, hall⟩, rfl⟩
      refine ⟨_, ofBinary_eq_ok_iff.2 ⟨hreadable, rfl⟩, ?_⟩
      rw [ih.2 ⟨hall, rfl⟩]
      rfl

theorem foldl_add_ofResults (results : List BinaryResult) (summary : TestSummary) :
    (results.map fun r => ofResults [r]).foldl add summary = add summary (ofResults results) := by
  induction results generalizing summary with
  | nil => rfl
  | cons r results ih => rw [List.map_cons, List.foldl_cons, ih, add_ofResults]

variable {output : Text} {results : List BinaryResult}

/-- **The counts of a text** are those of its summaries, added up. -/
theorem totals_eq_ok_iff (h : SummariesOf (Text.splitNewlines output) results)
    {summary : TestSummary} :
    totals output = .ok summary ↔
      (∀ r ∈ results, r.IsReadable) ∧ summary = ofResults results := by
  have hempty : ∀ summary : TestSummary, add {} summary = summary := by
    intro summary
    simp [add]
  rw [totals, summariesOf_iff.1 h, map_eq_ok]
  simp only [mapM_ofBinary_eq_ok_iff]
  constructor
  · rintro ⟨_, ⟨hall, rfl⟩, rfl⟩
    exact ⟨hall, by rw [foldl_add_ofResults, hempty]⟩
  · rintro ⟨hall, rfl⟩
    exact ⟨_, ⟨hall, rfl⟩, by rw [foldl_add_ofResults, hempty]⟩

theorem ofBinary_eq_error_iff {r : BinaryResult} {e : TestSummaryError} :
    ofBinary r = .error e ↔ e = .countTooLong ∧
      (Text.maxDigits < r.passed.length ∨ Text.maxDigits < r.failed.length) := by
  rw [ofBinary, Text.boundedNumeral?, Text.boundedNumeral?]
  by_cases hpassed : r.passed.length ≤ Text.maxDigits
  · by_cases hfailed : r.failed.length ≤ Text.maxDigits
    · simp [hpassed, hfailed, Nat.not_lt.2 hpassed, Nat.not_lt.2 hfailed]
    · simp [hpassed, hfailed, Nat.lt_of_not_le hfailed, eq_comm]
  · simp [hpassed, Nat.lt_of_not_le hpassed, eq_comm]

theorem eq_countTooLong_of_totals {output : Text} {e : TestSummaryError}
    (h : totals output = .error e) : e = .countTooLong := by
  rw [totals] at h
  rcases hresults : ((Text.splitNewlines output).filterMap BinaryResult.ofLine?).mapM ofBinary
    with e' | summaries
  · rw [hresults] at h
    cases h
    obtain ⟨r, -, hr⟩ := exists_of_mapM_eq_error hresults
    exact (ofBinary_eq_error_iff.1 hr).1
  · rw [hresults] at h
    cases h

theorem ofOutput_of_totals {summary : TestSummary} (h : totals output = .ok summary) :
    ofOutput output = if summary.binaries = 0 then .error .noSummary else .ok summary := by
  rw [ofOutput, h]
  rfl

/-- A text has a summary if it has a summary line and all its counts can be read. -/
theorem ofOutput_eq_ok_iff (h : SummariesOf (Text.splitNewlines output) results)
    {summary : TestSummary} :
    ofOutput output = .ok summary ↔
      results ≠ [] ∧ (∀ r ∈ results, r.IsReadable) ∧ summary = ofResults results := by
  constructor
  · intro hsummary
    obtain ⟨counts, hcounts, -⟩ := bind_eq_ok.1 hsummary
    obtain ⟨hall, rfl⟩ := (totals_eq_ok_iff h).1 hcounts
    rw [ofOutput_of_totals hcounts] at hsummary
    split at hsummary
    · cases hsummary
    · rename_i hsome
      exact ⟨mt binaries_eq_zero_iff.2 hsome, hall, (Except.ok.inj hsummary).symm⟩
  · rintro ⟨hne, hall, rfl⟩
    have htotals : totals output = .ok (ofResults results) :=
      (totals_eq_ok_iff h).2 ⟨hall, rfl⟩
    rw [ofOutput_of_totals htotals, if_neg (mt binaries_eq_zero_iff.1 hne)]

/-- A text has no summary exactly if it has no summary line. -/
theorem ofOutput_eq_noSummary_iff (h : SummariesOf (Text.splitNewlines output) results) :
    ofOutput output = .error .noSummary ↔ results = [] := by
  rcases htotals : totals output with e | counts
  · have hlong := eq_countTooLong_of_totals htotals
    have hfault : ofOutput output = .error e := by
      rw [ofOutput, htotals]
      rfl
    rw [hfault, hlong]
    constructor
    · intro hnone
      cases hnone
    · rintro rfl
      cases htotals.symm.trans ((totals_eq_ok_iff h).2 ⟨by simp, rfl⟩)
  · obtain ⟨-, rfl⟩ := (totals_eq_ok_iff h).1 htotals
    rw [ofOutput_of_totals htotals, ← binaries_eq_zero_iff]
    split <;> rename_i hzero
    · exact iff_of_true rfl hzero
    · exact iff_of_false (by simp) hzero

end TestSummary

end Cargo

end ProjectAudit
