import ProjectAudit.Settings.RuleSettings

/-!
# Settings with their defaults written out

An object of settings mentions some fields, and those that it leaves out have defaults.  Writing the
defaults of these out behind the others changes nothing that can be looked up in the object but the
fields that were left out, so a reader with the same defaults reads the same settings from it, and
meets the same issues.

A reader of settings is put together from readers of its fields.  So it is enough to know that each
of these has the default that is written out for its field.

* `Json.completeWith`: the object with the fields that were left out.
* `Settings.Completes`: a reader to which it is of no account whether they are written out, with one
  law for each way of building a reader.
-/

namespace ProjectAudit

namespace Json

variable (defaults fields : List (Text × Json)) (name : Text)

/-- Fields mention a name. -/
def Mentions (name : Text) (fields : List (Text × Json)) : Prop :=
  (fieldOf? name fields).isSome = true

instance : Decidable (Mentions name fields) :=
  inferInstanceAs (Decidable (_ = true))

/-- Fields, and behind them the defaults of those that they do not mention. -/
def completeWith : List (Text × Json) :=
  fields ++ defaults.filter fun d => (fieldOf? d.1 fields).isNone

/-- Of no fields at all, each has its default. -/
theorem completeWith_nil : completeWith defaults [] = defaults := by
  rw [completeWith, List.nil_append, List.filter_eq_self]
  exact fun _ _ => rfl

theorem fieldOf?_append (more : List (Text × Json)) :
    fieldOf? name (fields ++ more) = (fieldOf? name fields).or (fieldOf? name more) := by
  rw [fieldOf?, List.find?_append, Option.map_or]
  rfl

/-- **What can be looked up** when the defaults are written out: what is mentioned, and the default
where nothing is. -/
theorem fieldOf?_completeWith :
    fieldOf? name (completeWith defaults fields) =
      (fieldOf? name fields).or (fieldOf? name defaults) := by
  rw [completeWith, fieldOf?_append]
  cases hfield : fieldOf? name fields with
  | some v => rfl
  | none =>
    rw [Option.none_or, Option.none_or, fieldOf?, fieldOf?, List.find?_filter]
    congr 2
    funext d
    cases hname : d.1 == name with
    | false => simp
    | true => simp [eq_of_beq hname, hfield]

end Json

namespace Settings

open Json

variable {α β : Type} {defaults : List (Text × Json)}

/-- It is of no account to a reader whether the defaults of the fields that are not mentioned are
written out. -/
def Completes (defaults : List (Text × Json)) (read : List (Text × Json) → Checked α) : Prop :=
  ∀ fields, read (completeWith defaults fields) = read fields

theorem completes_const (x : Checked α) : Completes defaults fun _ => x :=
  fun _ => rfl

theorem Completes.apply {f : List (Text × Json) → Checked (α → β)}
    {x : List (Text × Json) → Checked α} (hf : Completes defaults f) (hx : Completes defaults x) :
    Completes defaults fun fields => (f fields).apply (x fields) := by
  intro fields
  dsimp only
  rw [hf fields, hx fields]

/-- A field whose default, as it is written out, is read as the default that it has when it is
absent. -/
theorem completes_optionalField {name : Text} {read : Json → Checked α} {absent : α} {v : Json}
    (hdefault : fieldOf? name defaults = some v) (hread : read v = .valid absent) :
    Completes defaults fun fields => optionalField fields name read absent := by
  intro fields
  dsimp only
  rw [optionalField, optionalField, fieldOf?_completeWith, hdefault]
  cases fieldOf? name fields with
  | some mentioned => rfl
  | none => exact congrArg (Checked.under (.field name)) hread

/-! ## The six kinds of settings -/

/-- The defaults of a kind, by field. -/
def Kind.defaultFields (k : Kind) : List (Text × Json) :=
  match k.defaults with
  | .obj fields => fields
  | _ => []

theorem FilePresence.completes :
    Completes Kind.filePresence.defaultFields fun fields => FilePresence.ofJson (.obj fields) := by
  refine ((completes_const _).apply ?_).apply ?_
  all_goals exact completes_optionalField rfl rfl

theorem ContinuousIntegration.completes :
    Completes Kind.continuousIntegration.defaultFields fun fields =>
      ContinuousIntegration.ofJson (.obj fields) := by
  refine (((((completes_const _).apply ?_).apply ?_).apply ?_).apply ?_).apply ?_
  all_goals exact completes_optionalField rfl rfl

theorem Build.completes :
    Completes Kind.build.defaultFields fun fields => Build.ofJson (.obj fields) :=
  (completes_const _).apply (completes_optionalField rfl rfl)

theorem Tests.completes :
    Completes Kind.tests.defaultFields fun fields => Tests.ofJson (.obj fields) :=
  (completes_const _).apply (completes_optionalField rfl rfl)

theorem PropertyTesting.completes :
    Completes Kind.propertyTesting.defaultFields fun fields =>
      PropertyTesting.ofJson (.obj fields) := by
  refine ((completes_const _).apply ?_).apply ?_
  all_goals exact completes_optionalField rfl rfl

theorem SourceControl.completes :
    Completes Kind.sourceControl.defaultFields fun fields => SourceControl.ofJson (.obj fields) :=
  (completes_const _).apply (completes_optionalField rfl rfl)

end Settings

end ProjectAudit
