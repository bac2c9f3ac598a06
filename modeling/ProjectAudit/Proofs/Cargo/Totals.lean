import ProjectAudit.Proofs.Cargo.Summaries
import ProjectAudit.Proofs.Text.Lines
import Mathlib.Algebra.BigOperators.Group.List.Basic

/-!
# Totals are additive

Summaries can be looked for in a text as a whole: at the start of each line, and behind the end of
the one that was found last.  A summary has no line feed in it, so what is found is found within a
line, and a line feed between two texts neither joins what stands at its sides to a summary nor
parts one.  So the summaries of two texts with a line feed between them are those of the first one
and then those of the second one, and all counts are sums.

A failure counts at least once for each binary, and since that is settled line by line, it is
counted before the sums are taken: the order of the lines is of no account, and neither are the
lines that are no summaries.

* `Finds`: what a search over the whole of a text finds.
* `finds_iff_summariesOf`: the search finds the summaries among the lines.
* `Finds.append_newline`: a search over two texts with a line feed between them.
* `TestSummary.ofOutput_additive`: the totals of two texts, and the totals of lines.
-/

namespace ProjectAudit

namespace Text

/-- The lines of a text whose start has no line feed in it: the first one begins with it. -/
theorem splitNewlines_append {u : Text} (hu : .char '\n' ∉ u) (t : Text) :
    ∃ first others, splitNewlines t = first :: others ∧
      splitNewlines (u ++ t) = (u ++ first) :: others := by
  induction u with
  | nil =>
    obtain ⟨first, others, ht⟩ := List.exists_cons_of_ne_nil (splitNewlines_ne_nil t)
    exact ⟨first, others, ht, ht⟩
  | cons c u ih =>
    obtain ⟨hc, hu⟩ := not_or.1 (List.mem_cons.not.1 hu)
    obtain ⟨first, others, ht, happend⟩ := ih hu
    refine ⟨first, others, ht, ?_⟩
    rw [List.cons_append, splitNewlines, if_neg (Ne.symm hc), happend]
    rfl

/-- The first line of a text, and what follows it: nothing, or a line feed and more. -/
theorem exists_first_line (t : Text) :
    ∃ first others rest, splitNewlines t = first :: others ∧ t = first ++ rest ∧
      (rest = [] ∨ ∃ more, rest = .char '\n' :: more) := by
  induction t with
  | nil => exact ⟨[], [], [], rfl, rfl, .inl rfl⟩
  | cons c t ih =>
    by_cases hc : c = .char '\n'
    · subst hc
      exact ⟨[], splitNewlines t, .char '\n' :: t, by rw [splitNewlines, if_pos rfl], rfl,
        .inr ⟨t, rfl⟩⟩
    · obtain ⟨first, others, rest, hlines, ht, hrest⟩ := ih
      refine ⟨c :: first, others, rest, ?_, by rw [List.cons_append, ← ht], hrest⟩
      rw [splitNewlines, if_neg hc, hlines]
      rfl

end Text

namespace Cargo

/-! ## Summaries in a text -/

namespace BinaryResult

variable {r : BinaryResult} {t : Text}

/-- No line feed stands in a summary. -/
theorem newline_notMem_text (hpassed : IsCount r.passed) (hfailed : IsCount r.failed) :
    .char '\n' ∉ r.text := by
  have hdigits : ∀ {digits : Text}, IsCount digits → .char '\n' ∉ digits := by
    rintro digits ⟨-, hdecimal⟩ hmem
    have hnewline := hdecimal _ hmem
    revert hnewline
    decide
  have hpassedDigits := hdigits hpassed
  have hfailedDigits := hdigits hfailed
  rw [BinaryResult.text, countsText]
  cases r.ok <;> simp [hpassedDigits, hfailedDigits, Text.ofString]

/-- Whether a text begins as a summary is settled in front of its first line feed. -/
theorem summarizes_append_newline {rest : Text} :
    Summarizes (t ++ .char '\n' :: rest) r ↔ Summarizes t r := by
  constructor
  · rintro ⟨hpassed, hfailed, more, hbegins⟩
    refine ⟨hpassed, hfailed, ?_⟩
    -- The line feed stands behind the summary, for else it would stand in it.
    rcases List.append_eq_append_iff.1 hbegins with ⟨back, htext, hback⟩ | ⟨back, ht, -⟩
    · cases back with
      | nil => exact ⟨[], by rw [htext, List.append_nil, List.append_nil]⟩
      | cons c back =>
        obtain ⟨rfl, -⟩ := List.cons.inj hback
        have hmem : .char '\n' ∈ r.text := by simp [htext]
        exact absurd hmem (newline_notMem_text hpassed hfailed)
    · exact ⟨back, ht⟩
  · rintro ⟨hpassed, hfailed, more, rfl⟩
    exact ⟨hpassed, hfailed, more ++ .char '\n' :: rest, List.append_assoc _ _ _⟩

/-- A text begins as a summary exactly if its first line is one. -/
theorem summarizes_iff_first_line {first : Text} {others : List Text}
    (h : Text.splitNewlines t = first :: others) : Summarizes t r ↔ Summarizes first r := by
  obtain ⟨first', others', rest, hlines, rfl, hrest⟩ := Text.exists_first_line t
  obtain ⟨rfl, rfl⟩ := List.cons.inj (hlines.symm.trans h)
  rcases hrest with rfl | ⟨more, rfl⟩
  · rw [List.append_nil]
  · exact summarizes_append_newline

/-- The line is a summary. -/
def IsSummary (line : Text) : Prop :=
  ∃ r, Summarizes line r

theorem isSome_ofLine?_iff {line : Text} : (ofLine? line).isSome = true ↔ IsSummary line := by
  rw [Option.isSome_iff_exists, IsSummary]
  simp only [ofLine?_eq_some_iff]

instance : DecidablePred IsSummary := fun _ =>
  decidable_of_iff _ isSome_ofLine?_iff

theorem ofLine?_eq_none_iff {line : Text} : ofLine? line = none ↔ ¬ IsSummary line := by
  rw [← isSome_ofLine?_iff, Option.not_isSome_iff_eq_none]

end BinaryResult

open BinaryResult

/-- What a search over a text finds.  At the start of a line, of which the flag says whether the
search stands there, a summary is found if the text begins as one, and the search goes on behind
it; else it goes on behind the next code point. -/
inductive Finds : (lineStart : Bool) → Text → List BinaryResult → Prop
  | done {q : Bool} : Finds q [] []
  | found {r : BinaryResult} {rest : Text} {results : List BinaryResult}
    (hpassed : IsCount r.passed) (hfailed : IsCount r.failed) (hrest : Finds false rest results) :
    Finds true (r.text ++ rest) (r :: results)
  | pass {q : Bool} {c : CodePoint} {t : Text} {results : List BinaryResult}
    (hother : q = true → ¬ IsSummary (c :: t)) (hrest : Finds (c == .char '\n') t results) :
    Finds q (c :: t) results

/-- The lines in which the search may find a summary: a line that it has begun is none of them. -/
def searched (lineStart : Bool) (t : Text) : List Text :=
  if lineStart then Text.splitNewlines t else (Text.splitNewlines t).tail

/-- What is found are the summaries of the lines that are searched. -/
theorem Finds.eq_filterMap {q : Bool} {t : Text} {results : List BinaryResult}
    (h : Finds q t results) : results = (searched q t).filterMap ofLine? := by
  induction h with
  | done => cases ‹Bool› <;> rfl
  | @found r rest results hpassed hfailed hrest ih =>
    obtain ⟨first, others, hlines, happend⟩ :=
      Text.splitNewlines_append (newline_notMem_text hpassed hfailed) rest
    have hread : ofLine? (r.text ++ first) = some r :=
      ofLine?_eq_some_iff.2 ⟨hpassed, hfailed, first, rfl⟩
    rw [ih, searched, searched, if_neg Bool.false_ne_true, if_pos rfl, hlines, happend,
      List.filterMap_cons_some hread, List.tail_cons]
  | @pass q c t results hother hrest ih =>
    obtain ⟨first, others, hlines⟩ :=
      List.exists_cons_of_ne_nil (Text.splitNewlines_ne_nil (c :: t))
    have hothers : (searched (c == .char '\n') t).filterMap ofLine? = others.filterMap ofLine? := by
      rw [Text.splitNewlines] at hlines
      by_cases hc : c = .char '\n'
      · rw [if_pos hc] at hlines
        rw [searched, if_pos (by rw [hc]; rfl), (List.cons.inj hlines).2]
      · rw [if_neg hc] at hlines
        obtain ⟨next, more, ht⟩ := List.exists_cons_of_ne_nil (Text.splitNewlines_ne_nil t)
        rw [ht, Text.consToFirst] at hlines
        rw [searched, if_neg (by simpa using hc), ht, List.tail_cons, (List.cons.inj hlines).2]
    rw [ih, hothers, searched, hlines]
    cases q with
    | false => rfl
    | true =>
      have hnone : ofLine? first = none := by
        rw [ofLine?_eq_none_iff]
        rintro ⟨r, hr⟩
        exact hother rfl ⟨r, (summarizes_iff_first_line hlines).2 hr⟩
      rw [if_pos rfl, List.filterMap_cons_none hnone]

/-- Any text can be searched through. -/
theorem exists_finds (q : Bool) (t : Text) : ∃ results, Finds q t results := by
  -- By the length of the text, since the search goes on behind a summary.
  induction hlength : t.length using Nat.strongRecOn generalizing q t with
  | ind n ih =>
    subst hlength
    by_cases hhere : q = true ∧ IsSummary t
    · obtain ⟨rfl, r, hpassed, hfailed, rest, rfl⟩ := hhere
      have hshorter : rest.length < (r.text ++ rest).length := by
        have hsome : 0 < r.text.length := by
          rw [BinaryResult.text, List.length_append]
          exact Nat.add_pos_left (by decide) _
        rw [List.length_append]
        omega
      obtain ⟨results, hrest⟩ := ih _ hshorter false rest rfl
      exact ⟨r :: results, .found hpassed hfailed hrest⟩
    · cases t with
      | nil => exact ⟨[], .done⟩
      | cons c t =>
        obtain ⟨results, hrest⟩ := ih _ (Nat.lt_succ_self _) (c == .char '\n') t rfl
        exact ⟨results, .pass (fun hq hsummary => hhere ⟨hq, hsummary⟩) hrest⟩

/-- **What a search over a text finds** are the summaries among its lines. -/
theorem finds_iff_summariesOf {t : Text} {results : List BinaryResult} :
    Finds true t results ↔ SummariesOf (Text.splitNewlines t) results := by
  rw [summariesOf_iff]
  constructor
  · intro hfinds
    exact hfinds.eq_filterMap.symm
  · rintro rfl
    obtain ⟨results, hfinds⟩ := exists_finds true t
    have hresults := hfinds.eq_filterMap
    rw [searched, if_pos rfl] at hresults
    exact hresults ▸ hfinds

/-- **A line feed cuts the search**: what it finds in two texts with a line feed between them is
what it finds in the first one, and then what it finds in the second one. -/
theorem Finds.append_newline {a b : Text} {resultsA resultsB : List BinaryResult}
    (ha : Finds true a resultsA) (hb : Finds true b resultsB) :
    Finds true (a ++ .char '\n' :: b) (resultsA ++ resultsB) := by
  rw [finds_iff_summariesOf, summariesOf_iff] at ha hb ⊢
  rw [Text.splitNewlines_append_newline, List.filterMap_append, ha, hb]

/-! ## Totals of texts and of lines -/

/-- No summary in the text has a count of more digits than a numeral may have. -/
def HasReadableCounts (t : Text) : Prop :=
  ∀ line ∈ Text.splitNewlines t, ∀ r, Summarizes line r → r.IsReadable

theorem HasReadableCounts.append_newline {a b : Text} (ha : HasReadableCounts a)
    (hb : HasReadableCounts b) : HasReadableCounts (a ++ .char '\n' :: b) := by
  intro line hline
  rw [Text.splitNewlines_append_newline] at hline
  exact (List.mem_append.1 hline).elim (ha line) (hb line)

namespace TestSummary

/-- What a text counts for: nothing, if it has no summary. -/
def counted (t : Text) : TestSummary :=
  match ofOutput t with
  | .ok summary => summary
  | .error _ => {}

theorem ofResults_append (as bs : List BinaryResult) :
    ofResults (as ++ bs) = add (ofResults as) (ofResults bs) := by
  simp [ofResults, add]

/-- The counts of results do not depend on their order. -/
theorem ofResults_perm {as bs : List BinaryResult} (h : as.Perm bs) :
    ofResults as = ofResults bs := by
  rw [ofResults, ofResults, (h.map passedCount).sum_eq, (h.map failures).sum_eq, h.length_eq]

variable {t : Text} {results : List BinaryResult}

/-- The counts in lines are readable if those of the summaries that are read are. -/
theorem forall_readable_iff {lines : List Text} :
    (∀ line ∈ lines, ∀ r, Summarizes line r → r.IsReadable) ↔
      ∀ r ∈ lines.filterMap ofLine?, r.IsReadable := by
  simp only [List.mem_filterMap, ofLine?_eq_some_iff]
  constructor
  · rintro hall r ⟨line, hline, hr⟩
    exact hall line hline r hr
  · intro hall line hline r hr
    exact hall r ⟨line, hline, hr⟩

/-- What a text comes to depends on its summaries alone. -/
theorem ofOutput_eq (hresults : (Text.splitNewlines t).filterMap ofLine? = results) :
    ofOutput t =
      if results = [] then .error .noSummary
      else if ∀ r ∈ results, r.IsReadable then .ok (ofResults results)
      else .error .countTooLong := by
  have hsummaries := summariesOf_iff.2 hresults
  by_cases hnone : results = []
  · rw [if_pos hnone]
    exact (ofOutput_eq_noSummary_iff hsummaries).2 hnone
  · rw [if_neg hnone]
    by_cases hall : ∀ r ∈ results, r.IsReadable
    · rw [if_pos hall]
      exact (ofOutput_eq_ok_iff hsummaries).2 ⟨hnone, hall, rfl⟩
    · rw [if_neg hall]
      cases houtput : ofOutput t with
      | ok summary => exact absurd ((ofOutput_eq_ok_iff hsummaries).1 houtput).2.1 hall
      | error e =>
        cases e with
        | noSummary => exact absurd ((ofOutput_eq_noSummary_iff hsummaries).1 houtput) hnone
        | countTooLong => rfl

theorem ofOutput_of_readable (ht : HasReadableCounts t)
    (hresults : (Text.splitNewlines t).filterMap ofLine? = results) :
    ofOutput t = if results = [] then .error .noSummary else .ok (ofResults results) := by
  have hall := forall_readable_iff.1 ht
  rw [hresults] at hall
  rw [ofOutput_eq hresults]
  simp only [if_pos hall]

theorem counted_of_readable (ht : HasReadableCounts t)
    (hresults : (Text.splitNewlines t).filterMap ofLine? = results) :
    counted t = ofResults results := by
  rw [counted, ofOutput_of_readable ht hresults]
  by_cases hnone : results = []
  · rw [if_pos hnone, hnone]
    rfl
  · rw [if_neg hnone]

/-- The totals of two texts with a line feed between them. -/
theorem ofOutput_append_newline {a b : Text} (ha : HasReadableCounts a)
    (hb : HasReadableCounts b) :
    ofOutput (a ++ .char '\n' :: b) =
      if ofOutput a = .error .noSummary ∧ ofOutput b = .error .noSummary then .error .noSummary
      else .ok (add (counted a) (counted b)) := by
  have hsearch : (Text.splitNewlines (a ++ .char '\n' :: b)).filterMap ofLine? =
      (Text.splitNewlines a).filterMap ofLine? ++ (Text.splitNewlines b).filterMap ofLine? := by
    rw [Text.splitNewlines_append_newline, List.filterMap_append]
  rw [ofOutput_of_readable (ha.append_newline hb) hsearch, counted_of_readable ha rfl,
    counted_of_readable hb rfl, ← ofResults_append]
  simp only [ofOutput_eq_noSummary_iff (summariesOf_iff.2 rfl), List.append_eq_nil_iff]

variable {lines : List Text}

/-- The summaries of lines that were joined are those of the lines, also if there are none. -/
theorem filterMap_splitNewlines_joined (hlines : ∀ line ∈ lines, .char '\n' ∉ line) :
    (Text.splitNewlines (Text.joined "\n" lines)).filterMap ofLine? = lines.filterMap ofLine? := by
  by_cases hsome : lines = []
  · rw [hsome]
    rfl
  · rw [Text.splitNewlines_joined hsome hlines]

/-- Only the summaries among lines count, and their order does not. -/
theorem filterMap_ofLine?_perm {lines' : List Text}
    (h : (lines.filter fun line => IsSummary line).Perm
      (lines'.filter fun line => IsSummary line)) :
    (lines.filterMap ofLine?).Perm (lines'.filterMap ofLine?) := by
  have hfilter : ∀ ls : List Text,
      (ls.filter fun line => IsSummary line).filterMap ofLine? = ls.filterMap ofLine? := by
    intro ls
    rw [List.filterMap_filter]
    refine List.filterMap_congr fun line _ => ?_
    by_cases hline : IsSummary line
    · simp [hline]
    · simp [hline, ofLine?_eq_none_iff.2 hline]
  rw [← hfilter lines, ← hfilter lines']
  exact h.filterMap _

theorem length_filterMap_ofLine? (lines : List Text) :
    (lines.filterMap ofLine?).length = (lines.filter fun line => IsSummary line).length := by
  rw [List.length_filterMap_eq_countP, List.countP_eq_length_filter]
  congr 2
  funext line
  rw [Bool.eq_iff_iff, isSome_ofLine?_iff, decide_eq_true_iff]

/-- Lines with the same summaries in any order, whatever other lines stand among them, come to
the same. -/
theorem ofOutput_joined_perm {lines' : List Text} (hlines : ∀ line ∈ lines, .char '\n' ∉ line)
    (hlines' : ∀ line ∈ lines', .char '\n' ∉ line)
    (h : (lines.filter fun line => IsSummary line).Perm
      (lines'.filter fun line => IsSummary line)) :
    ofOutput (Text.joined "\n" lines) = ofOutput (Text.joined "\n" lines') := by
  have hperm := filterMap_ofLine?_perm h
  have hnone : lines.filterMap ofLine? = [] ↔ lines'.filterMap ofLine? = [] := by
    rw [← List.length_eq_zero_iff, ← List.length_eq_zero_iff, hperm.length_eq]
  have hreadable : (∀ r ∈ lines.filterMap ofLine?, r.IsReadable) ↔
      ∀ r ∈ lines'.filterMap ofLine?, r.IsReadable :=
    forall_congr' fun r => by rw [hperm.mem_iff]
  rw [ofOutput_eq (filterMap_splitNewlines_joined hlines),
    ofOutput_eq (filterMap_splitNewlines_joined hlines'), ofResults_perm hperm]
  simp only [hnone, hreadable]

/-- A summary line alone comes to its own counts. -/
theorem ofOutput_line {line : Text} {r : BinaryResult} (hline : .char '\n' ∉ line)
    (hr : Summarizes line r) (hreadable : r.IsReadable) :
    ofOutput line = .ok (ofResults [r]) := by
  have hone : (Text.splitNewlines line).filterMap ofLine? = [r] := by
    rw [Text.splitNewlines_of_unbroken fun c hc heq => hline (heq ▸ hc),
      List.filterMap_cons_some (ofLine?_eq_some_iff.2 hr)]
    rfl
  rw [ofOutput_eq hone, if_neg (List.cons_ne_nil _ _),
    if_pos (List.forall_mem_singleton.2 hreadable)]

/-- No failure is counted in lines exactly if none is in each summary among them alone. -/
theorem allPassed_ofResults_iff (hlines : ∀ line ∈ lines, .char '\n' ∉ line)
    (hreadable : ∀ line ∈ lines, ∀ r, Summarizes line r → r.IsReadable) :
    (ofResults (lines.filterMap ofLine?)).allPassed = true ↔
      ∀ line ∈ lines, IsSummary line →
        ∃ own, ofOutput line = .ok own ∧ own.allPassed = true := by
  have hown : ∀ {results : List BinaryResult}, (ofResults results).allPassed = true ↔
      ∀ r ∈ results, r.ok = true ∧ r.failedCount = 0 := by
    intro results
    rw [allPassed, beq_iff_eq, failed_eq_zero_iff]
  rw [hown]
  constructor
  · intro hall line hline hsummary
    obtain ⟨r, hr⟩ := hsummary
    have hmem : r ∈ lines.filterMap ofLine? :=
      List.mem_filterMap.2 ⟨line, hline, ofLine?_eq_some_iff.2 hr⟩
    refine ⟨ofResults [r], ofOutput_line (hlines line hline) hr (hreadable line hline r hr), ?_⟩
    exact hown.2 (List.forall_mem_singleton.2 (hall r hmem))
  · intro hall r hmem
    obtain ⟨line, hline, hread⟩ := List.mem_filterMap.1 hmem
    have hr := ofLine?_eq_some_iff.1 hread
    obtain ⟨own, houtput, hpass⟩ := hall line hline ⟨r, hr⟩
    rw [ofOutput_line (hlines line hline) hr (hreadable line hline r hr)] at houtput
    obtain rfl := Except.ok.inj houtput
    exact hown.1 hpass r (List.mem_singleton_self r)

/-- **Totals are additive and free of order**.

A line feed between two texts whose counts can be read adds up their totals, and there is no
summary exactly if neither text has one.  Lines come to the same if the summaries among them are
the same in another order, so lines may be permuted, and lines that are no summaries put in and
taken out.  Lines whose counts can be read have no summary if none of them is one; else as many
binaries are counted as there are summaries, and no failure is counted exactly if none is in each
summary alone. -/
theorem ofOutput_additive :
    (∀ a b : Text, HasReadableCounts a → HasReadableCounts b →
      ofOutput (a ++ .char '\n' :: b) =
        if ofOutput a = .error .noSummary ∧ ofOutput b = .error .noSummary then
          .error .noSummary
        else .ok (add (counted a) (counted b))) ∧
    (∀ lines lines' : List Text, (∀ line ∈ lines, .char '\n' ∉ line) →
      (∀ line ∈ lines', .char '\n' ∉ line) →
      (lines.filter fun line => IsSummary line).Perm
        (lines'.filter fun line => IsSummary line) →
      ofOutput (Text.joined "\n" lines) = ofOutput (Text.joined "\n" lines')) ∧
    ∀ lines : List Text, (∀ line ∈ lines, .char '\n' ∉ line) →
      (∀ line ∈ lines, ∀ r, Summarizes line r → r.IsReadable) →
      ((∀ line ∈ lines, ¬ IsSummary line) →
        ofOutput (Text.joined "\n" lines) = .error .noSummary) ∧
      ((∃ line ∈ lines, IsSummary line) → ∃ summary,
        ofOutput (Text.joined "\n" lines) = .ok summary ∧
        summary.binaries = (lines.filter fun line => IsSummary line).length ∧
        (summary.allPassed = true ↔ ∀ line ∈ lines, IsSummary line →
          ∃ own, ofOutput line = .ok own ∧ own.allPassed = true)) := by
  refine ⟨fun a b => ofOutput_append_newline, fun lines lines' => ofOutput_joined_perm, ?_⟩
  intro lines hlines hreadable
  have hjoined := ofOutput_eq (filterMap_splitNewlines_joined hlines)
  constructor
  · intro hnone
    have hempty : lines.filterMap ofLine? = [] := by
      rw [List.filterMap_eq_nil_iff]
      exact fun line hline => ofLine?_eq_none_iff.2 (hnone line hline)
    rw [hjoined, if_pos hempty]
  · rintro ⟨line, hline, r, hr⟩
    have hsome : lines.filterMap ofLine? ≠ [] :=
      List.ne_nil_of_mem (List.mem_filterMap.2 ⟨line, hline, ofLine?_eq_some_iff.2 hr⟩)
    rw [hjoined, if_neg hsome, if_pos (forall_readable_iff.1 hreadable)]
    exact ⟨_, rfl, length_filterMap_ofLine? lines, allPassed_ofResults_iff hlines hreadable⟩

/-- A run of two binaries, the second of which failed without a failing test: cut behind the line
of the first one, and with its lines in the other order and another one between them. -/
theorem ofOutput_additive_two :
    ofOutput (("test result: ok. 2 passed; 0 failed;" : Text) ++
        .char '\n' :: ("test result: FAILED. 1 passed; 0 failed;" : Text)) = .ok ⟨3, 1, 2⟩ ∧
      ofOutput (Text.joined "\n" [("test result: ok. 2 passed; 0 failed;" : Text),
          ("test result: FAILED. 1 passed; 0 failed;" : Text)]) =
        ofOutput (Text.joined "\n" [("test result: FAILED. 1 passed; 0 failed;" : Text),
          ("running 2 tests" : Text), ("test result: ok. 2 passed; 0 failed;" : Text)]) ∧
      ∃ summary, ofOutput (Text.joined "\n" [("test result: ok. 2 passed; 0 failed;" : Text),
          ("test result: FAILED. 1 passed; 0 failed;" : Text)]) = .ok summary ∧
        summary.binaries = 2 := by
  refine ⟨?_, ofOutput_additive.2.1 _ _ (by decide) (by decide) (by decide +kernel), ?_⟩
  · have hfirst := forall_readable_iff.2 (by decide +kernel :
      ∀ r ∈ (Text.splitNewlines "test result: ok. 2 passed; 0 failed;").filterMap ofLine?,
        r.IsReadable)
    have hsecond := forall_readable_iff.2 (by decide +kernel :
      ∀ r ∈ (Text.splitNewlines "test result: FAILED. 1 passed; 0 failed;").filterMap ofLine?,
        r.IsReadable)
    rw [ofOutput_additive.1 _ _ hfirst hsecond]
    decide +kernel
  · obtain ⟨summary, houtput, hbinaries, -⟩ :=
      (ofOutput_additive.2.2 [("test result: ok. 2 passed; 0 failed;" : Text),
        ("test result: FAILED. 1 passed; 0 failed;" : Text)] (by decide)
        (forall_readable_iff.2 (by decide +kernel))).2
        ⟨_, List.mem_cons_self, by decide +kernel⟩
    exact ⟨summary, houtput, hbinaries.trans (by decide +kernel)⟩

end TestSummary

end Cargo

end ProjectAudit
