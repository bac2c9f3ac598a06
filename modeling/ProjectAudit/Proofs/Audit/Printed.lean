import ProjectAudit.Audit.Check
import ProjectAudit.Proofs.Evaluation.Printed

/-!
# What a check prints

A check gathers what the rules are told, evaluates them and closes with the summary.  Gathering
leaves the report alone, so a check that is not asked for notes prints the lines of its findings and
the summary of their counts.

* `beside_gatherContext`: gathering leaves the report alone.
* `check_printed`: what a check prints.
-/

namespace ProjectAudit

open Run

variable {h : Host} {manifest : Path} {options : CheckOptions}

/-- **What the query leaves**: log records and its one process. -/
theorem leaves_queryMetadata {P : Event → Prop} (h : Host) (toolchain : Cargo.Toolchain)
    (manifest : Path) (hlogged : ∀ r, P (.logged r))
    (hstarted : ∀ call : Call, call.subcommand? = some "metadata" → P (.started call)) :
    Leaves P (queryMetadata h toolchain manifest) := by
  have hunusable (reason : Text) : Leaves P (unusableMetadata manifest reason) :=
    (leaves_emit (hlogged _)).bind fun _ => leaves_pure _
  refine (leaves_attemptCall _ _ _ _ _ _ _ hlogged hstarted).bind fun answer => ?_
  cases answer with
  | error e => exact (leaves_emit (hlogged _)).bind fun _ => leaves_pure _
  | ok output =>
    show Leaves P (if _ then _ else _)
    split
    · exact leaves_pure _
    · cases output.stdoutText with
      | error e => exact hunusable _
      | ok stdout =>
        dsimp only
        rcases Cargo.Metadata.ofText stdout with (r | _ | l) | metadata
        · exact hunusable _
        · exact leaves_fail _
        · exact leaves_fail _
        · exact leaves_pure _

/-! ## Gathering -/

/-- The manifest as rules are told of it: it is a file, and its path is resolved. -/
def manifestIn (h : Host) (manifest : Path) : Except Failure Path := do
  if ← (h.isFile manifest).mapError .path then (h.resolve manifest).mapError .path
  else .error (.setup (.manifestNotFound manifest))

/-- What rules are told when the query for metadata has come to a result. -/
def CheckOptions.context (options : CheckOptions) (h : Host) (manifest : Path)
    (metadataResult : MetadataResult) : Context :=
  { manifest, metadataResult, toolchain := options.toolchain.getD (.ofHost h), host := h
    verbose := options.verbose, settings := options.settings }

/-- A context with the message of its query noted, if there is one. -/
def Context.withMessageNoted (c : Context) : Run Failure Context := do
  if !c.metadataResult.message.isEmpty then c.note c.metadataResult.message
  return c

/-- Gathering finds the manifest, makes the query, and notes what it has to say. -/
theorem gatherContext_eq (h : Host) (manifest : Path) (options : CheckOptions) :
    gatherContext h manifest options = (do
      let manifest ← Run.ofExcept (manifestIn h manifest)
      let result ← queryMetadata h (options.toolchain.getD (.ofHost h)) manifest
      (options.context h manifest result).withMessageNoted) := by
  funext s
  rw [gatherContext, manifestIn]
  cases h.isFile manifest with
  | error fault => rfl
  | ok isFile =>
    cases isFile with
    | false => rfl
    | true => cases h.resolve manifest <;> rfl

theorem value_withMessageNoted (c : Context) (s : Cargo.Script) :
    (c.withMessageNoted s).value = .ok c := by
  rw [Context.withMessageNoted, Context.note]
  split
  · split <;> rfl
  · rfl

/-- What gathering leaves: what the query leaves, and a note if notes are wished for. -/
theorem leaves_gatherContext {P : Event → Prop} (h : Host) (manifest : Path)
    (options : CheckOptions) (hlogged : ∀ r, P (.logged r))
    (hnote : options.verbose = true → ∀ text, P (.note text))
    (hstarted : ∀ call : Call, call.subcommand? = some "metadata" → P (.started call)) :
    Leaves P (gatherContext h manifest options) := by
  rw [gatherContext_eq]
  refine (leaves_ofExcept _).bind fun resolved =>
    (leaves_queryMetadata _ _ _ hlogged hstarted).bind fun result => ?_
  rw [Context.withMessageNoted]
  split
  · exact (leaves_note _ _ hnote).bind fun _ => leaves_pure _
  · exact leaves_pure _

/-- **Gathering leaves the report alone.** -/
theorem beside_gatherContext (h : Host) (manifest : Path) (options : CheckOptions) :
    Beside options.verbose (gatherContext h manifest options) :=
  leaves_gatherContext h manifest options (fun _ => trivial) (fun hverbose _ => hverbose)
    fun _ _ => trivial

/-- What gathering comes to. -/
theorem context_of_gatherContext {s : Cargo.Script} {c : Context}
    (hc : (gatherContext h manifest options s).value = .ok c) :
    ∃ resolved result, c = options.context h resolved result := by
  rw [gatherContext_eq] at hc
  obtain ⟨resolved, -, hc⟩ := value_bind_eq_ok.1 hc
  obtain ⟨result, -, hc⟩ := value_bind_eq_ok.1 hc
  rw [value_withMessageNoted] at hc
  exact ⟨resolved, result, (Except.ok.inj hc).symm⟩

theorem verbose_of_gatherContext {s : Cargo.Script} {c : Context}
    (hc : (gatherContext h manifest options s).value = .ok c) : c.verbose = options.verbose := by
  obtain ⟨resolved, result, rfl⟩ := context_of_gatherContext hc
  rfl

/-! ## The report -/

theorem runRules_printed {c : Context} (hverbose : c.verbose = false) (rules : Option (List Rule))
    (s : Cargo.Script) :
    ∃ report, (runRules c rules s).value = (.ok report : Except Failure Report) ∧
      report.findings.map Finding.description = (rules.getD Rule.defaults).map Rule.description ∧
      Event.fullText (runRules c rules s : Ending Failure Report).events =
        report.findings.flatMap Finding.line := by
  obtain ⟨findings, hvalue, hdescriptions, hprinted⟩ :=
    evaluateRules_printed (ε := Failure) hverbose (rules.getD Rule.defaults) s
  refine ⟨{ manifest := c.manifest, findings }, ?_, hdescriptions, ?_⟩
  · rw [runRules, bind_of_ok hvalue]
    rfl
  · rw [runRules, bind_of_ok hvalue, Event.fullText_append, hprinted]
    exact List.append_nil _

/-- **What a check prints.**  A check that is not asked for notes and comes to a report has a
finding for each rule, in the order of the rules, and prints the lines of the findings and their
summary. -/
theorem check_printed (hverbose : options.verbose = false) {rules : Option (List Rule)}
    {s : Cargo.Script} {report : Report}
    (hreport : (check h manifest rules options s).value = .ok report) :
    report.findings.map Finding.description = (rules.getD Rule.defaults).map Rule.description ∧
      Event.fullText (check h manifest rules options s).events =
        report.findings.flatMap Finding.line ++ report.stats.summary := by
  have hgather : Beside false (gatherContext h manifest options) :=
    hverbose ▸ beside_gatherContext h manifest options
  rw [check] at hreport ⊢
  obtain ⟨c, hc, hrest⟩ := value_bind_eq_ok.1 hreport
  have hquiet : c.verbose = false := (verbose_of_gatherContext hc).trans hverbose
  obtain ⟨found, hfound, hdescriptions, hprinted⟩ :=
    runRules_printed hquiet rules (gatherContext h manifest options s).script
  rw [bind_of_ok hfound] at hrest
  obtain rfl : found = report := Except.ok.inj hrest
  refine ⟨hdescriptions, ?_⟩
  rw [bind_of_ok hc, bind_of_ok hfound, Event.fullText_append, Event.fullText_append,
    hgather.fullText_eq_nil, hprinted, List.nil_append]
  exact congrArg _ (List.append_nil _)

end ProjectAudit
