import ProjectAudit.CommandLine.CheckCommand
import ProjectAudit.Proofs.Run.Beside

/-!
# The rules that a command selects

A command evaluates the rules that a checklist names, or the default ones.  Either way they are
rules that a checklist may name, in the order of the catalog, and each at most once.  Selecting them
asks the tool for nothing and writes nothing but log records.

* `CheckArguments.onlyLogs_chosenRules`: what selecting leaves.
* `eq_filter_of_filterRules`: the rules that requests select from a catalog.
* `CheckArguments.sublist_of_chosenRules`: the rules that are selected.
-/

namespace ProjectAudit

open Run

theorem onlyLogs_checkRequests (catalog : List Rule) (strict : Bool) (requested : List Text) :
    OnlyLogs (checkRequests catalog strict requested) := by
  induction requested with
  | nil => exact onlyLogs_pure ()
  | cons description rest ih =>
    rw [checkRequests]
    split
    · exact ih
    · split
      · exact onlyLogs_fail _
      · exact (onlyLogs_log _ _ _).bind fun _ => ih

theorem onlyLogs_checklistRules (h : Host) (path : Path) (strict : Bool) :
    OnlyLogs (checklistRules h path strict) := by
  refine (onlyLogs_ofExcept _).bind fun requested => ?_
  have hfilter : OnlyLogs (filterRules Rule.available requested strict) :=
    (onlyLogs_checkRequests Rule.available strict requested).bind fun _ => onlyLogs_pure _
  exact hfilter.bind fun _ => (onlyLogs_log _ _ _).bind fun _ => onlyLogs_pure _

/-- The rules that requests select are those of the catalog whose descriptions are requested. -/
theorem eq_filter_of_filterRules {catalog selected : List Rule} {requested : List Text}
    {strict : Bool} {s : Cargo.Script}
    (hselected : (filterRules catalog requested strict s).value = .ok selected) :
    selected = catalog.filter fun rule => requested.contains rule.description := by
  obtain ⟨-, -, hselected⟩ := value_bind_eq_ok.1 hselected
  exact (Except.ok.inj hselected).symm

theorem sublist_of_checklistRules {h : Host} {path : Path} {strict : Bool} {s : Cargo.Script}
    {rules : List Rule} (hrules : (checklistRules h path strict s).value = .ok rules) :
    rules.Sublist Rule.available := by
  obtain ⟨requested, -, hfilter⟩ := value_bind_eq_ok.1 hrules
  obtain ⟨selected, hselected, hlog⟩ := value_bind_eq_ok.1 hfilter
  obtain rfl := eq_filter_of_filterRules hselected
  obtain ⟨-, -, hlog⟩ := value_bind_eq_ok.1 hlog
  obtain rfl := Except.ok.inj hlog
  exact List.filter_sublist

theorem Rule.defaults_sublist_available : Rule.defaults.Sublist Rule.available :=
  (List.sublist_append_left _ _).map _

namespace CommandLine.CheckArguments

variable {a : CheckArguments} {h : Host}

theorem onlyLogs_chosenRules (a : CheckArguments) (h : Host) : OnlyLogs (a.chosenRules h) := by
  refine (onlyLogs_ofExcept _).bind fun path => ?_
  cases path with
  | none => exact onlyLogs_pure none
  | some path => exact (onlyLogs_checklistRules h path _).bind fun _ => onlyLogs_pure _

/-- **The rules that are selected** are some of those that a checklist may name, in their order. -/
theorem sublist_of_chosenRules {s : Cargo.Script} {selected : Option (List Rule)}
    (hselected : (a.chosenRules h s).value = .ok selected) :
    (selected.getD Rule.defaults).Sublist Rule.available := by
  obtain ⟨path, -, hchosen⟩ := value_bind_eq_ok.1 hselected
  cases path with
  | none =>
    obtain rfl := Except.ok.inj hchosen
    exact Rule.defaults_sublist_available
  | some path =>
    obtain ⟨rules, hrules, hdone⟩ := value_bind_eq_ok.1 hchosen
    obtain rfl := Except.ok.inj hdone
    exact sublist_of_checklistRules hrules

end CommandLine.CheckArguments

/-- There are not too many rules to be counted. -/
theorem Rule.isWritable_length_available : Text.isWritable Rule.available.length = true := by
  decide +kernel

/-- The description of a rule that a checklist may name is plain text. -/
theorem Rule.description_of_mem_available {rule : Rule} (h : rule ∈ Rule.available) :
    ∃ description : String, rule.description = description := by
  obtain ⟨b, -, rfl⟩ := List.mem_map.1 h
  exact ⟨b.description, rfl⟩

end ProjectAudit
