import ProjectAudit.Proofs.Evaluation.Lines
import ProjectAudit.Proofs.Run.Calling
import Mathlib.Data.List.Forall2

/-!
# What lists of rules call and come to

What is known of each rule in a list is known of the list: rules call what each of them calls, and
each has one finding, in the order of the rules.  A rule about which no more is known than that it
can only be undetermined is recorded as undetermined, also if it ends with a fault.

* `evaluateRules_callsOnly`: the subcommands that rules call.
* `evaluateRules_findingIn`: the findings that rules come to.
* `Rule.outcomeIn_eq_undetermined`: rules that come to no decision.
-/

namespace ProjectAudit

open Run

variable {ε : Type} {own : List Text} {c : Context}

theorem BuiltIn.callsOnly_evaluate (rule : BuiltIn) (c : Context) :
    CallsOnly rule.subcommands (rule.evaluate c) :=
  (rule.stepwise c).callsOnly c.verbose

/-- What is recorded for a rule that can come to nothing but an undetermined outcome. -/
theorem Rule.outcomeIn_eq_undetermined {rule : BuiltIn} {s : Cargo.Script}
    (h : ∀ o, (rule.evaluate c s).value = .ok o → o = .undetermined) :
    (Rule.builtIn rule).outcomeIn c s = .undetermined := by
  rw [outcomeIn]
  cases hvalue : ((Rule.builtIn rule).evaluate c s).value with
  | error fault => rfl
  | ok answer =>
    obtain ⟨o, ho, hanswer⟩ := value_bind_eq_ok.1 hvalue
    obtain rfl := h o ho
    obtain rfl := Except.ok.inj hanswer
    rfl

/-- Reporting on a rule calls what the rule calls. -/
theorem Rule.callsOnly_report {rule : Rule} (hrule : CallsOnly own (rule.evaluate c)) :
    CallsOnly own (rule.report c : Run ε Finding) := by
  refine (leaves_emit (Event.callsOnly_report _)).bind fun _ => Leaves.bind ?_ fun outcome =>
    (leaves_emit (Event.callsOnly_report _)).bind fun _ => leaves_pure _
  refine hrule.attempt.bind fun answer => ?_
  rcases answer with fault | (o | v)
  · exact (leaves_emit (Event.callsOnly_logged _)).bind fun _ => leaves_pure _
  · exact leaves_pure _
  · exact (leaves_emit (Event.callsOnly_logged _)).bind fun _ => leaves_pure _

/-- **Rules call what each of them calls.** -/
theorem evaluateRules_callsOnly {rules : List Rule}
    (hrules : ∀ rule ∈ rules, CallsOnly own (rule.evaluate c)) :
    CallsOnly own (evaluateRules c rules : Run ε (List Finding)) := by
  induction rules with
  | nil => exact leaves_pure _
  | cons rule rules ih =>
    obtain ⟨hrule, hrest⟩ := List.forall_mem_cons.1 hrules
    exact (Rule.callsOnly_report hrule).bind fun finding =>
      (ih hrest).bind fun findings => leaves_pure _

/-- Rules come to one finding each, with the outcome that is recorded for the rule in its turn. -/
theorem evaluateRules_findingIn (c : Context) (rules : List Rule) (s : Cargo.Script) :
    ∃ findings, (evaluateRules c rules s).value = (.ok findings : Except ε (List Finding)) ∧
      List.Forall₂ (fun rule f => ∃ script, f = rule.findingIn c script) rules findings := by
  induction rules generalizing s with
  | nil => exact ⟨[], rfl, .nil⟩
  | cons rule rules ih =>
    obtain ⟨findings, hvalue, hall⟩ := ih (rule.evaluate c s).script
    rw [evaluateRules_cons_apply, hvalue]
    exact ⟨_, rfl, .cons ⟨s, rfl⟩ hall⟩

end ProjectAudit
