import ProjectAudit.Proofs.CommandLine.Selection
import ProjectAudit.Proofs.Evaluation.Calls
import ProjectAudit.Proofs.Rules.Registering

/-!
# Outcomes by description

The outcomes of a run can be looked up by the descriptions of its rules.  Of two findings with one
description only the outcome of the later one would be kept.  Rules that come from a registry never
lead there: their descriptions differ, whichever of them are asked for, and a selection of them
keeps what it takes as it is.

* `outcomesByDescription_eq_map`: findings whose descriptions differ are all kept.
* `evaluateRules_keyed`: nothing is lost of what registered rules come to.
-/

namespace ProjectAudit

open Run

variable {ε : Type}

/-! ## Looking up outcomes -/

theorem outcomesByDescription.put_of_notMem {f : Finding} {seen : List (Text × Outcome)}
    (hnew : f.description ∉ seen.map (·.1)) :
    put f seen = seen ++ [(f.description, f.outcome)] := by
  induction seen with
  | nil => rfl
  | cons entry rest ih =>
    rw [List.map_cons, List.mem_cons, not_or] at hnew
    rw [put, if_neg (Ne.symm hnew.1), ih hnew.2, List.cons_append]

/-- **Findings whose descriptions differ are all kept**, each with its outcome, in their order. -/
theorem outcomesByDescription_eq_map {findings : List Finding}
    (hnodup : (findings.map (·.description)).Nodup) :
    outcomesByDescription findings = findings.map fun f => (f.description, f.outcome) := by
  -- the descriptions seen so far and those still to come differ all together
  have hfoldl : ∀ (findings : List Finding) (seen : List (Text × Outcome)),
      (seen.map (·.1) ++ findings.map (·.description)).Nodup →
      findings.foldl (fun seen f => outcomesByDescription.put f seen) seen =
        seen ++ findings.map fun f => (f.description, f.outcome) := by
    intro findings
    induction findings with
    | nil => simp
    | cons f findings ih =>
      intro seen hnodup
      have hnew : f.description ∉ seen.map (·.1) := by
        intro hmem
        exact (List.nodup_append.1 hnodup).2.2 _ hmem _ List.mem_cons_self rfl
      have hrest : ((seen ++ [(f.description, f.outcome)]).map (·.1) ++
          findings.map (·.description)).Nodup := by
        rw [List.map_append, List.append_assoc]
        exact hnodup
      rw [List.foldl_cons, outcomesByDescription.put_of_notMem hnew, ih _ hrest,
        List.append_assoc, List.map_cons]
      rfl
  exact hfoldl findings [] hnodup

/-! ## Findings of rules -/

/-- What rules come to is recorded under their descriptions, in their order. -/
theorem evaluateRules_descriptions (c : Context) (rules : List Rule) (s : Cargo.Script) :
    ∃ findings, (evaluateRules c rules s).value = (.ok findings : Except ε (List Finding)) ∧
      findings.map (·.description) = rules.map Rule.description := by
  obtain ⟨findings, hvalue, hall⟩ := evaluateRules_findingIn (ε := ε) c rules s
  refine ⟨findings, hvalue, ?_⟩
  rw [← List.forall₂_eq_eq_eq, List.forall₂_map_left_iff, List.forall₂_map_right_iff]
  refine List.Forall₂.flip (hall.imp ?_)
  rintro rule _ ⟨script, rfl⟩
  rfl

/-- The rules that are selected from some rules: all of them, or those that requests keep. -/
def SelectedFrom (rules selected : List Rule) : Prop :=
  selected = rules ∨
    ∃ requested strict s, (filterRules rules requested strict s).value = .ok selected

theorem SelectedFrom.sublist {rules selected : List Rule} (h : SelectedFrom rules selected) :
    selected.Sublist rules := by
  rcases h with rfl | ⟨requested, strict, s, hfilter⟩
  · exact List.Sublist.refl _
  · rw [eq_filter_of_filterRules hfilter]
    exact List.filter_sublist

/-- Nothing is lost of what rules come to whose descriptions differ, whichever are selected. -/
theorem evaluateRules_lookup {rules selected : List Rule}
    (hnodup : (rules.map Rule.description).Nodup) (hselected : SelectedFrom rules selected)
    (c : Context) (s : Cargo.Script) :
    ∃ findings, (evaluateRules c selected s).value = (.ok findings : Except ε (List Finding)) ∧
      findings.map (·.description) = selected.map Rule.description ∧
      outcomesByDescription findings = findings.map fun f => (f.description, f.outcome) := by
  obtain ⟨findings, hvalue, hdescriptions⟩ := evaluateRules_descriptions (ε := ε) c selected s
  refine ⟨findings, hvalue, hdescriptions, outcomesByDescription_eq_map ?_⟩
  rw [hdescriptions]
  exact hnodup.sublist (hselected.sublist.map _)

/-- **Nothing is lost of what registered rules come to.**  After any calls on an empty registry, ids
and descriptions are not empty and tell the rules apart; a further call adds its rule behind the
others, or is rejected and leaves the registry as it was.  For registered ids that differ, one rule
is created for each, in the order of the ids.  Rules with the descriptions of these, and any
selection of them, are all evaluated, and looking their outcomes up by description gives one outcome
for each finding, in the order of the findings. -/
theorem evaluateRules_keyed (calls : List RegisteredRule) :
    let r := Registry.afterCalls calls
    r.IsKeyed ∧
    (∀ rule, (r.Accepts rule ∧ r.register rule = .ok ⟨r.rules ++ [rule]⟩ ∧
        Registry.afterCalls (calls ++ [rule]) = ⟨r.rules ++ [rule]⟩) ∨
      (¬ r.Accepts rule ∧ (∃ e, r.register rule = .error e) ∧
        Registry.afterCalls (calls ++ [rule]) = r)) ∧
    ∀ wanted : List Text, wanted.Nodup → (∀ id ∈ wanted, id ∈ r.ids) →
      ∃ created, r.create wanted = .ok created ∧ created.map (·.id) = wanted ∧
        (∀ rule ∈ created, rule ∈ r.rules) ∧
        ∀ rules selected, rules.map Rule.description = created.map (·.description) →
          SelectedFrom rules selected → ∀ (c : Context) (s : Cargo.Script),
            ∃ findings,
              (evaluateRules c selected s).value = (.ok findings : Except ε (List Finding)) ∧
              findings.map (·.description) = selected.map Rule.description ∧
              outcomesByDescription findings =
                findings.map fun f => (f.description, f.outcome) := by
  intro r
  have hkeyed : r.IsKeyed := Registry.isKeyed_afterCalls calls
  refine ⟨hkeyed, fun rule => ?_, fun wanted hnodup hwanted => ?_⟩
  · rw [Registry.afterCalls_concat]
    by_cases haccepts : r.Accepts rule
    · exact .inl ⟨haccepts, Registry.register_eq_ok_iff.2 ⟨haccepts, rfl⟩,
        Registry.afterCall_of_accepts haccepts⟩
    · exact .inr ⟨haccepts, Registry.afterCall_of_not_accepts haccepts⟩
  · obtain ⟨created, hcreate, hids, hmem⟩ := Registry.create_eq_ok hwanted
    refine ⟨created, hcreate, hids, hmem, fun rules selected hrules hselected c s => ?_⟩
    refine evaluateRules_lookup ?_ hselected c s
    rw [hrules]
    exact hkeyed.nodup_map_description (hids ▸ hnodup) hmem

/-- Two of four calls are rejected, and the two rules that are registered are created the other way
round; the second one of them is selected. -/
theorem evaluateRules_keyed_rejected :
    let calls : List RegisteredRule :=
      [⟨"A", "is a"⟩, ⟨"A", "is b"⟩, ⟨"B", "is a"⟩, ⟨"B", "is b"⟩]
    let rules : List Rule :=
      [.custom ⟨"is b", [], .outcome .failure⟩, .custom ⟨"is a", [], .outcome .success⟩]
    let c : Context := {
      manifest := .ofText "/p/Cargo.toml"
      metadataResult := { status := .invalid } }
    (Registry.afterCalls calls).create ["B", "A"] = .ok [⟨"B", "is b"⟩, ⟨"A", "is a"⟩] ∧
      ∃ findings,
        (evaluateRules c [rules[1]] []).value = (.ok findings : Except Failure (List Finding)) ∧
        outcomesByDescription findings = findings.map fun f => (f.description, f.outcome) := by
  intro calls rules c
  have hcreate : (Registry.afterCalls calls).create ["B", "A"] =
      .ok [⟨"B", "is b"⟩, ⟨"A", "is a"⟩] := by rfl
  have hselected : SelectedFrom rules [rules[1]] := .inr ⟨["is a"], true, [], by rfl⟩
  obtain ⟨-, -, hwanted⟩ := evaluateRules_keyed (ε := Failure) calls
  obtain ⟨created, hcreated, -, -, hrules⟩ := hwanted ["B", "A"] (by decide) (by decide)
  obtain rfl := Except.ok.inj (hcreate.symm.trans hcreated)
  obtain ⟨findings, hvalue, -, hlookup⟩ := hrules rules _ (by rfl) hselected c []
  exact ⟨hcreate, findings, hvalue, hlookup⟩

end ProjectAudit
