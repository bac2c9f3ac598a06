import ProjectAudit.Audit.Failure
import ProjectAudit.Proofs.Evaluation.Lines
import Mathlib.Data.List.Perm.Subperm

/-!
# Rules do not influence each other

A run evaluates its rules one after the other, and each may use up replies of the tool.  Still, what
a rule comes to, and everything that it leaves behind, is what it comes to and leaves behind on its
own, as long as no built-in rule is evaluated twice: the built-in rules call different subcommands,
and the rules of a user call none.

The induction is over the rules to come.  Its invariant is that the script so far agrees with the
script of the start on the subcommands of every rule to come; the first of them keeps it, since it
changes nothing outside of its own footprint.

* `evaluateRules_of_agreeOn`: the induction.
* `evaluateRules_eq_alone`: a selection of rules, in any order, comes to the findings of its rules
  alone, and leaves behind what they leave behind alone.
-/

namespace ProjectAudit

open Run

/-- The ids of the built-in rules in a list. -/
def builtInIds (rules : List Rule) : List Text :=
  rules.filterMap fun
    | .builtIn rule => some rule.id
    | .custom _ => none

/-- No two of the rules call the same subcommand. -/
def CallApart (rules : List Rule) : Prop :=
  rules.Pairwise fun a b => List.Disjoint a.subcommands b.subcommands

/-- Rules of which no built-in one stands twice in the list call different subcommands. -/
theorem callApart_of_nodup {rules : List Rule} (h : (builtInIds rules).Nodup) :
    CallApart rules := by
  refine (List.pairwise_filterMap.1 h).imp fun {a b} hne => ?_
  cases a with
  | custom a => exact List.disjoint_nil_left _
  | builtIn a =>
    cases b with
    | custom b => exact List.disjoint_nil_right _
    | builtIn b =>
      refine BuiltIn.disjoint_subcommands fun hab => ?_
      exact hne _ rfl _ rfl (by rw [hab])

theorem nodup_builtInIds_of_subperm {selected rules : List Rule} (hsub : selected.Subperm rules)
    (h : (builtInIds rules).Nodup) : (builtInIds selected).Nodup := by
  obtain ⟨l, hperm, hsublist⟩ := hsub
  exact (hperm.filterMap _).nodup_iff.1 (h.sublist (hsublist.filterMap _))

variable {ε : Type} {c : Context} {s t : Cargo.Script}

/-! ## One rule -/

namespace Rule

variable {rule : Rule}

theorem findingIn_eq_of_agreeOn (h : s.AgreeOn rule.subcommands t) :
    rule.findingIn c t = rule.findingIn c s := by
  have hrun : Within rule.subcommands (rule.report c : Run RuleFault Finding) :=
    rule.within_report c
  have hvalue := hrun.value_eq h
  rw [report_apply, report_apply] at hvalue
  exact (Except.ok.inj hvalue).symm

theorem lineEvents_eq_of_agreeOn (h : s.AgreeOn rule.subcommands t) :
    rule.lineEvents c t = rule.lineEvents c s := by
  have hrun : Within rule.subcommands (rule.report c : Run RuleFault Finding) :=
    rule.within_report c
  have hevents := hrun.events_eq h
  rw [report_apply, report_apply] at hevents
  exact hevents.symm

theorem pending_evaluate {sub : Text} (h : sub ∉ rule.subcommands) :
    (rule.evaluate c t).script.pending sub = t.pending sub := by
  have hrun := (rule.stepwise c).within c.verbose
  rw [Context.withVerbose_self] at hrun
  exact hrun.pending_eq t h

end Rule

/-! ## The run -/

/-- From a script that agrees with another one on what the rules call, rules that call different
subcommands come to what each comes to from the other script. -/
theorem evaluateRules_of_agreeOn :
    ∀ (rules : List Rule) (t : Cargo.Script), CallApart rules →
      (∀ rule ∈ rules, s.AgreeOn rule.subcommands t) →
      ((evaluateRules c rules : Run ε (List Finding)) t).value =
          .ok (rules.map fun rule => rule.findingIn c s) ∧
        ((evaluateRules c rules : Run ε (List Finding)) t).events =
          rules.flatMap fun rule => rule.lineEvents c s
  | [], _, _, _ => ⟨rfl, rfl⟩
  | rule :: rules, t, hapart, hagree => by
    obtain ⟨hrule, hrules⟩ := List.pairwise_cons.1 hapart
    have hkept : ∀ other ∈ rules, s.AgreeOn other.subcommands (rule.evaluate c t).script := by
      intro other hmem sub hsub
      rw [Rule.pending_evaluate fun hown => hrule other hmem hown hsub]
      exact hagree other (List.mem_cons_of_mem _ hmem) sub hsub
    obtain ⟨hvalue, hevents⟩ := evaluateRules_of_agreeOn rules _ hrules hkept
    have hown := hagree rule List.mem_cons_self
    rw [evaluateRules_cons_apply, hvalue, hevents, Rule.findingIn_eq_of_agreeOn hown,
      Rule.lineEvents_eq_of_agreeOn hown]
    exact ⟨rfl, rfl⟩

theorem evaluateRules_singleton_apply (rule : Rule) :
    ((evaluateRules c [rule] : Run ε (List Finding)) s).value = .ok [rule.findingIn c s] ∧
      ((evaluateRules c [rule] : Run ε (List Finding)) s).events = rule.lineEvents c s := by
  rw [evaluateRules_cons_apply, evaluateRules_nil_apply]
  exact ⟨rfl, List.append_nil _⟩

/-- **Rules do not influence each other.**  If no built-in rule stands twice in a list, then every
selection of its rules, in every order, comes to the findings that its rules come to alone from the
same script, and what it leaves behind is what they leave behind alone, one after the other: all
events, and so the report, the notes, the text of a stream that takes both, the processes and the
log. -/
theorem evaluateRules_eq_alone (c : Context) (rules : List Rule) (s : Cargo.Script)
    (h : (builtInIds rules).Nodup) :
    ∃ alone : Rule → Finding,
      (∀ rule, ((evaluateRules c [rule] : Run ε (List Finding)) s).value = .ok [alone rule]) ∧
      ∀ selected : List Rule, selected.Subperm rules →
        let run := (evaluateRules c selected : Run ε (List Finding)) s
        let left := fun rule => ((evaluateRules c [rule] : Run ε (List Finding)) s).events
        run.value = .ok (selected.map alone) ∧
        run.events = selected.flatMap left ∧
        Event.reportText run.events = selected.flatMap (fun rule => Event.reportText (left rule)) ∧
        Event.noteText run.events = selected.flatMap (fun rule => Event.noteText (left rule)) ∧
        Event.fullText run.events = selected.flatMap (fun rule => Event.fullText (left rule)) ∧
        Event.calls run.events = selected.flatMap (fun rule => Event.calls (left rule)) ∧
        ∀ least, Event.log least run.events =
          selected.flatMap (fun rule => Event.log least (left rule)) := by
  refine ⟨fun rule => rule.findingIn c s, fun rule => (evaluateRules_singleton_apply rule).1, ?_⟩
  intro selected hsub run left
  obtain ⟨hvalue, hevents⟩ := evaluateRules_of_agreeOn selected s
    (callApart_of_nodup (nodup_builtInIds_of_subperm hsub h)) fun _ _ => .refl _ _
  have hleft : run.events = selected.flatMap left := by
    rw [hevents]
    exact List.flatMap_congr fun rule _ => (evaluateRules_singleton_apply rule).2.symm
  refine ⟨hvalue, hleft, ?_, ?_, ?_, ?_, fun least => ?_⟩ <;> rw [hleft]
  · exact List.flatMap_assoc
  · exact List.flatMap_assoc
  · exact List.flatMap_assoc
  · exact List.filterMap_flatMap
  · exact List.filterMap_flatMap

/-- A build, a rule that gives up after a note, and the tests, forwards and backwards. -/
theorem evaluateRules_eq_alone_reversed :
    let c : Context := {
      manifest := .ofText "/p/Cargo.toml"
      metadataResult := { status := .invalid }
      verbose := true }
    let rules : List Rule :=
      [.builtIn .buildsCleanly, .custom ⟨"Is finished", ["not yet"], .raise⟩, .builtIn .passesTests]
    let s : Cargo.Script :=
      [("build", [.finished { exitCode := 101 }]), ("test", [.notStarted "busy"])]
    (builtInIds rules).Nodup ∧ ∃ alone : Rule → Finding,
      ((evaluateRules c rules : Run Failure (List Finding)) s).value = .ok (rules.map alone) ∧
      ((evaluateRules c rules.reverse : Run Failure (List Finding)) s).value =
        .ok (rules.reverse.map alone) := by
  intro c rules s
  have hnodup : (builtInIds rules).Nodup := by decide
  obtain ⟨alone, -, hselected⟩ := evaluateRules_eq_alone c rules s hnodup
  exact ⟨hnodup, alone, (hselected rules (List.Subperm.refl _)).1,
    (hselected rules.reverse (List.reverse_perm rules).subperm).1⟩

end ProjectAudit
