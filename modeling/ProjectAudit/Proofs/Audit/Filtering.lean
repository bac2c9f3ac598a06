import ProjectAudit.Audit.Checklist
import ProjectAudit.Proofs.Run.Laws

/-!
# Filtering a catalog

Two lists are at work when a catalog is filtered, and each of them has a part of its own.  The
requests say what is reported: those that describe no rule are warned of one by one, or the first of
them is the failure where the requests are followed strictly.  The catalog says what is selected and
in which order: of the requests it only matters whether a description is among them.  So a request
that is made twice may be reported twice, but it selects no rule twice, and a rule that stands in
the catalog twice is selected twice.

* `filterRules_apply`: the whole run of a filter, from these two parts.
* `described_described`: filtering twice is filtering by what both have in common.
* `filterRules_selects`: what is selected and reported, and what follows for several filters.
-/

namespace ProjectAudit

open Run

/-- The rules of a catalog whose descriptions are among the texts. -/
def described (catalog : List Rule) (texts : List Text) : List Rule :=
  catalog.filter fun rule => texts.contains rule.description

/-- The texts that describe no rule of a catalog. -/
def unmatched (catalog : List Rule) (texts : List Text) : List Text :=
  texts.filter fun text => ∀ rule ∈ catalog, rule.description ≠ text

/-- What is reported of a request that is passed over. -/
def passedOver (request : Text) : Event :=
  .logged ⟨.warning, .checklist, "Requested rule not found, ignoring: " ++ request⟩

variable {catalog selected : List Rule} {requested requested' : List Text} {strict : Bool}
  {s : Cargo.Script} {rule : Rule} {text : Text}

theorem mem_described : rule ∈ described catalog requested ↔
    rule ∈ catalog ∧ rule.description ∈ requested := by
  rw [described, List.mem_filter, List.contains_iff_mem]

/-! ## Requests without a rule -/

theorem unmatched_cons (catalog : List Rule) (text : Text) (texts : List Text) :
    unmatched catalog (text :: texts) =
      if isKnown catalog text then unmatched catalog texts
      else text :: unmatched catalog texts := by
  have hknown : isKnown catalog text = true ↔ ¬ ∀ rule ∈ catalog, rule.description ≠ text := by
    simp [isKnown_iff]
  by_cases hnone : ∀ rule ∈ catalog, rule.description ≠ text
  · rw [if_neg fun h => hknown.1 h hnone]
    exact List.filter_cons_of_pos (decide_eq_true hnone)
  · rw [if_pos (hknown.2 hnone)]
    exact List.filter_cons_of_neg fun h => hnone (of_decide_eq_true h)

theorem unmatched_eq_nil_iff :
    unmatched catalog requested = [] ↔
      ∀ text ∈ requested, ∃ rule ∈ catalog, rule.description = text := by
  simp [unmatched, List.filter_eq_nil_iff]

/-- What comes of the requests: none is left without a rule, or they are followed loosely, or the
first one that describes no rule is the failure. -/
def requestsResult (strict : Bool) : List Text → Except Failure Unit
  | [] => .ok ()
  | request :: _ => if strict then .error (.setup (.ruleNotFound request)) else .ok ()

/-- **The requests** that describe no rule are reported in their order, or the first one is. -/
theorem checkRequests_apply (catalog : List Rule) (strict : Bool) (requested : List Text)
    (s : Cargo.Script) :
    checkRequests catalog strict requested s =
      ⟨requestsResult strict (unmatched catalog requested), s,
        if strict then [] else (unmatched catalog requested).map passedOver⟩ := by
  induction requested with
  | nil => cases strict <;> rfl
  | cons request rest ih =>
    rw [checkRequests, unmatched_cons]
    cases isKnown catalog request with
    | true => exact ih
    | false =>
      cases strict with
      | true => rfl
      | false =>
        -- the rest is followed to its end, since nothing fails in it
        have hrest : requestsResult false (unmatched catalog rest) = .ok () := by
          cases unmatched catalog rest <;> rfl
        rw [hrest] at ih
        show (Run.emit (passedOver request) >>= fun _ => checkRequests catalog false rest) s = _
        rw [bind_apply, emit_apply, ih]
        rfl

/-! ## What is selected -/

/-- **The whole run of a filter.** -/
theorem filterRules_apply (catalog : List Rule) (requested : List Text) (strict : Bool)
    (s : Cargo.Script) :
    filterRules catalog requested strict s =
      ⟨(requestsResult strict (unmatched catalog requested)).map fun _ =>
          described catalog requested, s,
        if strict then [] else (unmatched catalog requested).map passedOver⟩ := by
  rw [filterRules, ← described, bind_apply, checkRequests_apply]
  cases requestsResult strict (unmatched catalog requested) with
  | error failure => rfl
  | ok _ =>
    rw [pure_apply, List.append_nil]
    rfl

theorem filterRules_eq_ok_iff :
    (filterRules catalog requested strict s).value = .ok selected ↔
      (strict = true → unmatched catalog requested = []) ∧
        described catalog requested = selected := by
  rw [filterRules_apply]
  cases strict <;> cases unmatched catalog requested <;> simp [requestsResult, Except.map]

theorem described_congr (hsame : ∀ text, text ∈ requested ↔ text ∈ requested') :
    described catalog requested = described catalog requested' :=
  List.filter_congr fun _ _ => Bool.eq_iff_iff.2 <| by
    rw [List.contains_iff_mem, List.contains_iff_mem, hsame]

/-- **Filtering twice** is filtering once by what both lists of requests have in common. -/
theorem described_described {more common : List Text}
    (hcommon : ∀ text, text ∈ common ↔ text ∈ requested ∧ text ∈ more) :
    described (described catalog requested) more = described catalog common := by
  rw [described, described, described, List.filter_filter]
  refine List.filter_congr fun rule _ => ?_
  rw [Bool.eq_iff_iff, Bool.and_eq_true, List.contains_iff_mem, List.contains_iff_mem,
    List.contains_iff_mem, hcommon, and_comm]

/-- Of requests, those describe a rule that is selected by them that describe a rule at all. -/
theorem unmatched_described (catalog : List Rule) (requested : List Text) :
    unmatched (described catalog requested) requested = unmatched catalog requested := by
  refine List.filter_congr fun text htext => decide_eq_decide.2 ?_
  constructor
  · intro hnone rule hrule hdescription
    exact hnone rule (mem_described.2 ⟨hrule, hdescription ▸ htext⟩) hdescription
  · exact fun hnone rule hrule => hnone rule (mem_described.1 hrule).1

/-- **What is selected and reported.**  Requests that are followed loosely select the rules of the
catalog whose descriptions are among them, as they stand in the catalog, and each request without a
rule is warned of.  Requests that are followed strictly select the same and report nothing, unless
one is without a rule, the first of which is the failure.

So it is only the set of the requests that selects; to filter twice is to filter once by what both
lists of requests have in common, strictly if one of the two filters is strict; and to filter again
by the same requests is to do the same again. -/
theorem filterRules_selects (catalog : List Rule) (requested : List Text) :
    (∀ s, filterRules catalog requested false s =
      ⟨.ok (described catalog requested), s, (unmatched catalog requested).map passedOver⟩) ∧
    (∀ s, filterRules catalog requested true s =
      match unmatched catalog requested with
      | [] => ⟨.ok (described catalog requested), s, []⟩
      | first :: _ => ⟨.error (.setup (.ruleNotFound first)), s, []⟩) ∧
    (∀ requested' strict, (∀ text, text ∈ requested ↔ text ∈ requested') → ∀ s selected,
      (filterRules catalog requested strict s).value = .ok selected ↔
        (filterRules catalog requested' strict s).value = .ok selected) ∧
    (∀ more common strict strict', (∀ text, text ∈ common ↔ text ∈ requested ∧ text ∈ more) →
      ∀ s s' s'' once twice, (filterRules catalog requested strict s).value = .ok once →
        (filterRules once more strict' s').value = .ok twice →
          (filterRules catalog common (strict || strict') s'').value = .ok twice) ∧
    ∀ strict strict' s once, (filterRules catalog requested strict s).value = .ok once →
      filterRules once requested strict' = filterRules catalog requested strict' := by
  refine ⟨fun s => ?_, fun s => ?_, fun requested' strict hsame s selected => ?_,
    fun more common strict strict' hcommon s s' s'' once twice honce htwice => ?_,
    fun strict strict' s once honce => ?_⟩
  · rw [filterRules_apply]
    cases unmatched catalog requested <;> rfl
  · rw [filterRules_apply]
    cases unmatched catalog requested <;> rfl
  · rw [filterRules_eq_ok_iff, filterRules_eq_ok_iff, described_congr hsame, unmatched_eq_nil_iff,
      unmatched_eq_nil_iff]
    simp only [hsame]
  · obtain ⟨hfirst, rfl⟩ := filterRules_eq_ok_iff.1 honce
    obtain ⟨hsecond, rfl⟩ := filterRules_eq_ok_iff.1 htwice
    refine filterRules_eq_ok_iff.2 ⟨fun hstrict => ?_, (described_described hcommon).symm⟩
    rw [unmatched_eq_nil_iff]
    intro text htext
    obtain ⟨hrequested, hmore⟩ := (hcommon text).1 htext
    -- the filter that is strict has found a rule for the text
    rcases Bool.or_eq_true_iff.1 hstrict with hstrict | hstrict
    · exact unmatched_eq_nil_iff.1 (hfirst hstrict) text hrequested
    · obtain ⟨rule, hrule, hdescription⟩ := unmatched_eq_nil_iff.1 (hsecond hstrict) text hmore
      exact ⟨rule, (mem_described.1 hrule).1, hdescription⟩
  · obtain ⟨-, rfl⟩ := filterRules_eq_ok_iff.1 honce
    funext s'
    rw [filterRules_apply, filterRules_apply, unmatched_described,
      described_described fun _ => (and_self_iff).symm]

/-- A catalog in which a rule stands twice, and requests of which one is made twice and two describe
no rule. -/
theorem filterRules_selects_repeated :
    let rule (name : Text) : Rule := .custom { description := name, ending := .raise }
    let catalog := [rule "a", rule "b", rule "a", rule "c"]
    let requested : List Text := ["x", "a", "b", "a", "y"]
    let more : List Text := ["c", "a", "y"]
    (∀ text, text ∈ (["a", "y"] : List Text) ↔ text ∈ requested ∧ text ∈ more) ∧
      unmatched catalog requested = (["x", "y"] : List Text) ∧
      (filterRules catalog requested false []).value = .ok [rule "a", rule "b", rule "a"] ∧
      (filterRules catalog requested.reverse false []).value = .ok [rule "a", rule "b", rule "a"] ∧
      (filterRules catalog requested true []).value = .error (.setup (.ruleNotFound "x")) ∧
      (filterRules catalog ["a", "y"] false []).value = .ok [rule "a", rule "a"] ∧
      filterRules [rule "a", rule "b", rule "a"] requested true =
        filterRules catalog requested true := by
  intro rule catalog requested more
  obtain ⟨hloose, hstrict, hset, htwice, hagain⟩ := filterRules_selects catalog requested
  have hcommon : ∀ text, text ∈ (["a", "y"] : List Text) ↔ text ∈ requested ∧ text ∈ more := by
    intro text
    simp only [requested, more, List.mem_cons, List.not_mem_nil, or_false]
    constructor
    · rintro (rfl | rfl) <;> decide
    · rintro ⟨hrequested, rfl | rfl | rfl⟩
      · exact absurd hrequested (by decide)
      · exact .inl rfl
      · exact .inr rfl
  have honce : (filterRules catalog requested false []).value =
      .ok [rule "a", rule "b", rule "a"] := congrArg Ending.value (hloose [])
  refine ⟨hcommon, by decide, honce, ?_, congrArg Ending.value (hstrict []), ?_,
    hagain false true [] _ honce⟩
  · exact (hset requested.reverse false (fun _ => List.mem_reverse.symm) [] _).1 honce
  · exact htwice more _ false false hcommon [] [] [] _ _ honce (by rfl)

end ProjectAudit
