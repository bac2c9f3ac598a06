import ProjectAudit.Proofs.Rules.Steps
import ProjectAudit.Proofs.Run.Faulting

/-!
# The line of a rule

Evaluating a rule always comes to a finding, and leaves its line behind: the description, whatever
the rule does beside the report, and the label.  Evaluating rules is that, one rule after the other,
each with the script that the one before has left.

* `Rule.outcomeIn`: the outcome that is recorded for a rule, which is the rule's own one unless it
  ends with a fault or hands back something else.
* `Rule.report_apply`, `evaluateRules_cons_apply`: what one rule, and what a list of rules leaves.
* `Rule.isBeside_outcome`: between the description and the label a rule writes nothing to the
  report, and notes only if they are wished for.
-/

namespace ProjectAudit

open Run

variable {ε : Type}

namespace Rule

/-- The outcome that is recorded for a rule. -/
def outcomeIn (rule : Rule) (c : Context) (s : Cargo.Script) : Outcome :=
  match (rule.evaluate c s).value with
  | .ok (.outcome o) => o
  | _ => .undetermined

/-- A built-in rule that ends with a fault is recorded as undetermined. -/
theorem outcomeIn_builtIn_of_fails {rule : BuiltIn} {c : Context} {s : Cargo.Script}
    (h : Fails (rule.evaluate c s).value) : (builtIn rule).outcomeIn c s = .undetermined := by
  obtain ⟨fault, hfault⟩ := h
  rw [outcomeIn, evaluate, bind_of_error hfault]

/-- The finding that is recorded for a rule. -/
def findingIn (rule : Rule) (c : Context) (s : Cargo.Script) : Finding :=
  { description := rule.description, outcome := rule.outcomeIn c s }

/-- What the log says of a rule that hands back no outcome. -/
def complaint (rule : Rule) : Except RuleFault Answer → List Event
  | .ok (.outcome _) => []
  | .ok (.value v) =>
    [.logged ⟨.error, .evaluation, "Rule " ++ Text.quoted rule.description ++ " returned " ++
      v.quotedText ++ ", not a RuleOutcome"⟩]
  | .error _ =>
    [.logged ⟨.error, .evaluation, "Rule " ++ Text.quoted rule.description ++
      " raised instead of returning an outcome"⟩]

theorem outcome_apply (rule : Rule) (c : Context) (s : Cargo.Script) :
    (rule.outcome c : Run ε Outcome) s =
      ⟨.ok (rule.outcomeIn c s), (rule.evaluate c s).script,
        (rule.evaluate c s).events ++ rule.complaint (rule.evaluate c s).value⟩ := by
  simp only [outcome, outcomeIn, bind_apply, attempt_apply]
  rcases (rule.evaluate c s).value with fault | (o | v) <;> rfl

/-- The events of the line of a rule. -/
def lineEvents (rule : Rule) (c : Context) (s : Cargo.Script) : List Event :=
  .report rule.description ::
    ((rule.evaluate c s).events ++ rule.complaint (rule.evaluate c s).value ++
      [.report (" ... " ++ (rule.outcomeIn c s).label ++ "\n")])

theorem report_apply (rule : Rule) (c : Context) (s : Cargo.Script) :
    (rule.report c : Run ε Finding) s =
      ⟨.ok (rule.findingIn c s), (rule.evaluate c s).script, rule.lineEvents c s⟩ := by
  simp only [report, bind_apply, emit_apply, outcome_apply, pure_apply]
  rfl

theorem isBeside_complaint (rule : Rule) (answer : Except RuleFault Answer) {verbose : Bool} :
    ∀ e ∈ rule.complaint answer, e.IsBeside verbose := by
  intro e hmem
  rcases answer with fault | (o | v)
  · obtain rfl := List.mem_singleton.1 hmem
    trivial
  · exact absurd hmem List.not_mem_nil
  · obtain rfl := List.mem_singleton.1 hmem
    trivial

/-- What a rule leaves between its description and its label. -/
theorem isBeside_outcome (rule : Rule) (c : Context) (s : Cargo.Script) :
    ∀ e ∈ (rule.evaluate c s).events ++ rule.complaint (rule.evaluate c s).value,
      e.IsBeside c.verbose := by
  intro e hmem
  rcases List.mem_append.1 hmem with hmem | hmem
  · exact (rule.stepwise c).beside c.verbose s e hmem
  · exact rule.isBeside_complaint _ e hmem

theorem within_report (rule : Rule) (c : Context) :
    Within rule.subcommands (rule.report c : Run ε Finding) := by
  have h := (rule.stepwise c).within c.verbose
  rw [Context.withVerbose_self] at h
  refine (within_emit _).bind fun _ => Within.bind ?_ fun outcome => ?_
  · refine h.attempt.bind fun answer => ?_
    rcases answer with fault | (o | v)
    · exact (within_emit _).bind fun _ => within_pure _
    · exact within_pure _
    · exact (within_emit _).bind fun _ => within_pure _
  · exact (within_emit _).bind fun _ => within_pure _

/-- The report on a rule is about what the rule does, and about nothing else in the context. -/
theorem report_congr {rule : Rule} {c c' : Context} (h : rule.evaluate c = rule.evaluate c') :
    (rule.report c : Run ε Finding) = rule.report c' := by
  rw [report, report, outcome, outcome, h]

end Rule

/-- Contexts in which each of some rules does the same are the same to these rules. -/
theorem evaluateRules_congr {c c' : Context} {rules : List Rule}
    (h : ∀ rule ∈ rules, rule.evaluate c = rule.evaluate c') :
    (evaluateRules c rules : Run ε (List Finding)) = evaluateRules c' rules := by
  induction rules with
  | nil => rfl
  | cons rule rules ih =>
    obtain ⟨hrule, hrules⟩ := List.forall_mem_cons.1 h
    rw [evaluateRules, evaluateRules, Rule.report_congr hrule, ih hrules]

theorem evaluateRules_nil_apply (c : Context) (s : Cargo.Script) :
    (evaluateRules c [] : Run ε (List Finding)) s = ⟨.ok [], s, []⟩ := rfl

theorem evaluateRules_cons_apply (c : Context) (rule : Rule) (rules : List Rule)
    (s : Cargo.Script) :
    (evaluateRules c (rule :: rules) : Run ε (List Finding)) s =
      ⟨((evaluateRules c rules) (rule.evaluate c s).script).value.map (rule.findingIn c s :: ·),
        ((evaluateRules c rules : Run ε (List Finding)) (rule.evaluate c s).script).script,
        rule.lineEvents c s ++
          ((evaluateRules c rules : Run ε (List Finding)) (rule.evaluate c s).script).events⟩ := by
  simp only [evaluateRules, bind_apply, Rule.report_apply]
  cases h : ((evaluateRules c rules : Run ε (List Finding)) (rule.evaluate c s).script).value with
  | error e => rfl
  | ok findings => simp [Except.map]

end ProjectAudit
