import ProjectAudit.Settings.RuleSettings

/-!
# The entries of loaded settings

Settings are loaded from one value, and a rule then sees its own entry.  Loading looks at every
entry, for each of them must be an object, but what it makes of one does not depend on the others:
the entry of a rule is the object that is written under its id.  It is not looked into, so an object
that is of no use to its rule, or that belongs to no rule, is loaded like any other.

* `RuleSettings.entriesOf_eq_valid`: loading keeps all entries as they are.
* `RuleSettings.entry?_of_ofJson`: the entry of a rule is what is written under its id.
* `RuleSettings.entry?_congr`: values with one entry alike are loaded alike at that entry.
-/

namespace ProjectAudit

open Json

namespace Checked

variable {α β : Type}

theorem map_eq_valid {x : Checked α} {f : α → β} {b : β} :
    x.map f = .valid b ↔ ∃ a, x = .valid a ∧ f a = b := by
  cases x <;> simp [map]

theorem map_eq_invalid {x : Checked α} {f : α → β} {issues : List Issue} :
    x.map f = .invalid issues ↔ x = .invalid issues := by
  cases x <;> simp [map]

theorem apply_eq_valid {f : Checked (α → β)} {x : Checked α} {b : β} :
    f.apply x = .valid b ↔ ∃ g a, f = .valid g ∧ x = .valid a ∧ g a = b := by
  cases f <;> cases x <;> simp [apply]

theorem toExcept_eq_error_iff {x : Checked α} {issues : List Issue} :
    x.toExcept = .error issues ↔ x = .invalid issues := by
  cases x <;> simp [toExcept]

theorem under_eq_valid {x : Checked α} {step : PlaceStep} {a : α} :
    x.under step = .valid a ↔ x = .valid a := by
  cases x <;> simp [under]

end Checked

namespace RuleSettings

/-- What is written under a rule id, in a value that holds settings either as they are or as the
field `rules`. -/
def writtenUnder (v : Json) (id : Text) : Option Json :=
  ((wrapped v).field? "rules").bind fun entries => entries.field? id

/-- **Loading keeps all entries as they are**: they are objects, and nothing is made of them. -/
theorem entriesOf_eq_valid {fields : List (Text × Json)}
    {entries : List (Text × List (Text × Json))} (h : entriesOf fields = .valid entries) :
    fields = entries.map fun e => (e.1, .obj e.2) := by
  induction fields generalizing entries with
  | nil =>
    obtain rfl := Checked.valid.inj h
    rfl
  | cons field fields ih =>
    obtain ⟨id, v⟩ := field
    obtain ⟨_, rest, hconsed, hrest, rfl⟩ := Checked.apply_eq_valid.1 h
    obtain ⟨entry, hentry, rfl⟩ := Checked.map_eq_valid.1 hconsed
    rw [ih hrest]
    cases v with
    | obj fields =>
      obtain rfl := Checked.valid.inj hentry
      rfl
    | _ => cases Checked.under_eq_valid.1 hentry

variable {v : Json} {s : RuleSettings}

/-- **The entry of a rule is what is written under its id**, whatever else is written. -/
theorem entry?_of_ofJson (hload : ofJson (wrapped v) = .valid s) (id : Text) :
    (RuleSettings.entry? s id).map .obj = writtenUnder v id := by
  rw [writtenUnder]
  rcases hwrapped : wrapped v with _ | _ | _ | _ | _ | _ | fields
  case obj =>
    rw [hwrapped, ofJson, toRecord, optionalField] at hload
    rw [field?]
    cases hrules : fieldOf? "rules" fields with
    | none =>
      rw [hrules] at hload
      obtain rfl := Checked.valid.inj hload
      rfl
    | some rules =>
      rw [hrules] at hload
      have hentries := Checked.under_eq_valid.1 hload
      cases rules with
      | obj fields =>
        obtain ⟨entries, hvalid, rfl⟩ := Checked.map_eq_valid.1 hentries
        rw [entriesOf_eq_valid hvalid, Option.bind_some, field?, fieldOf?, List.find?_map,
          ← find?_entries, entries_ofList, Option.map_map, Option.map_map]
        rfl
      | _ => cases hentries
  all_goals
    rw [hwrapped] at hload
    cases hload

/-- An entry in front is passed over by every other rule. -/
theorem entry?_cons_of_ne {id other : Text} (hne : id ≠ other) (fields : List (Text × ReadOnly))
    (views : List (Text × List (Text × ReadOnly))) :
    RuleSettings.entry? ⟨(id, fields) :: views⟩ other = RuleSettings.entry? ⟨views⟩ other := by
  rw [ entry?, entry?, List.find?_cons_of_neg]
  simpa using hne

/-- Values with the same under a rule id are loaded alike at that rule. -/
theorem entry?_congr {v' : Json} {s' : RuleSettings} (hload : ofJson (wrapped v) = .valid s)
    (hload' : ofJson (wrapped v') = .valid s') {id : Text}
    (hsame : writtenUnder v id = writtenUnder v' id) :
    RuleSettings.entry? s id = RuleSettings.entry? s' id := by
  have hentries : (RuleSettings.entry? s id).map Json.obj =
      (RuleSettings.entry? s' id).map Json.obj := by
    rw [entry?_of_ofJson hload, entry?_of_ofJson hload', hsame]
  exact Option.map_injective (fun _ _ h => Json.obj.inj h) hentries

end RuleSettings

end ProjectAudit
