import ProjectAudit.Proofs.Settings.Entries
import Mathlib.Data.List.Basic

/-!
# Room for freezing

Values are frozen and thawed level by level, and there is room for so many levels.  Whether there is
enough of it is a matter of the nesting of the value and of nothing else, and where there is, what
comes out is what `Json.readOnly` and `ReadOnly.written` say without any mention of room.

Settings are frozen as one object of all their entries.  An entry by itself is a level less, so the
view that is kept of it has room to be thawed wherever the settings had room to be frozen.

* `Json.freeze_eq`, `ReadOnly.thaw_eq`: when there is room, and what then comes out.
* `RuleSettings.CanBeFrozen`: the settings that there is room for.
* `RuleSettings.freeze_entries_eq_ok_iff`, `RuleSettings.thaw_view?`: freezing all entries, and
  thawing one of them.
-/

namespace ProjectAudit

namespace Json

variable {α β γ : Type} {m n room : Nat}

/-- A value of the given nesting, if there is room for it. -/
def ifRoom (room nesting : Nat) (a : α) : Except Limit α :=
  if nesting ≤ room then .ok a else .error .depth

theorem ifRoom_succ (a : α) : ifRoom (room + 1) (n + 1) a = ifRoom room n a := by
  simp only [ifRoom, Nat.add_le_add_iff_right]

/-- A level above a value takes a level of the room. -/
theorem map_ifRoom (f : α → β) (a : α) :
    (ifRoom room n a).map f = ifRoom (room + 1) (n + 1) (f a) := by
  rw [ifRoom_succ, ifRoom, ifRoom]
  by_cases hroom : n ≤ room <;> simp [hroom, Except.map]

/-- For two values side by side there is room if there is for the more deeply nested one. -/
theorem bind_ifRoom (f : α → β → γ) (a : α) (b : β) :
    (do let x ← ifRoom room m a; return f x (← ifRoom room n b) : Except Limit γ) =
      ifRoom room (max m n) (f a b) := by
  simp only [ifRoom, Nat.max_le]
  by_cases hm : m ≤ room <;> by_cases hn : n ≤ room <;>
    simp [hm, hn, bind, Except.bind, pure, Except.pure]

mutual

/-- **A value is frozen exactly if it is nested no deeper than there is room for.** -/
theorem freeze_eq : ∀ (room : Nat) (v : Json), freeze room v = ifRoom room v.nesting v.readOnly
  | _, .null | _, .bool _ | _, .int _ | _, .float _ | _, .str _ => by
    simp [freeze, nesting, readOnly, ifRoom]
  | 0, .arr _ | 0, .obj _ => by simp [freeze, nesting, ifRoom]
  | room + 1, .arr items => by rw [freeze, freezeItems_eq room items, map_ifRoom]; rfl
  | room + 1, .obj fields => by rw [freeze, freezeFields_eq room fields, map_ifRoom]; rfl

theorem freezeItems_eq : ∀ (room : Nat) (items : List Json),
    freezeItems room items = ifRoom room (nestingItems items) (readOnlyItems items)
  | _, [] => by simp [freezeItems, nestingItems, readOnlyItems, ifRoom]
  | room, v :: vs => by
    rw [freezeItems, freeze_eq room v, freezeItems_eq room vs, bind_ifRoom]
    rfl

theorem freezeFields_eq : ∀ (room : Nat) (fields : List (Text × Json)),
    freezeFields room fields = ifRoom room (nestingFields fields) (readOnlyFields fields)
  | _, [] => by simp [freezeFields, nestingFields, readOnlyFields, ifRoom]
  | room, (name, v) :: fields => by
    rw [freezeFields, freeze_eq room v, freezeFields_eq room fields,
      bind_ifRoom fun first rest => (name, first) :: rest]
    rfl

end

end Json

namespace ReadOnly

open Json

mutual

/-- **A value is thawed exactly if it is nested no deeper than there is room for.** -/
theorem thaw_eq : ∀ (room : Nat) (v : ReadOnly),
    thaw room v = ifRoom room v.written.nesting v.written
  | _, .null | _, .bool _ | _, .int _ | _, .float _ | _, .str _ => by
    simp [thaw, nesting, written, ifRoom]
  | 0, .tuple _ | 0, .view _ => by simp [thaw, nesting, written, ifRoom]
  | room + 1, .tuple items => by rw [thaw, thawItems_eq room items, map_ifRoom]; rfl
  | room + 1, .view fields => by rw [thaw, thawFields_eq room fields, map_ifRoom]; rfl

theorem thawItems_eq : ∀ (room : Nat) (items : List ReadOnly),
    thawItems room items = ifRoom room (nestingItems (writtenItems items)) (writtenItems items)
  | _, [] => by simp [thawItems, nestingItems, writtenItems, ifRoom]
  | room, v :: vs => by
    rw [thawItems, thaw_eq room v, thawItems_eq room vs, bind_ifRoom]
    rfl

theorem thawFields_eq : ∀ (room : Nat) (fields : List (Text × ReadOnly)),
    thawFields room fields =
      ifRoom room (nestingFields (writtenFields fields)) (writtenFields fields)
  | _, [] => by simp [thawFields, nestingFields, writtenFields, ifRoom]
  | room, (name, v) :: fields => by
    rw [thawFields, thaw_eq room v, thawFields_eq room fields,
      bind_ifRoom fun first rest => (name, first) :: rest]
    rfl

end

end ReadOnly

namespace RuleSettings

/-- The fields of the object of all entries. -/
def fieldsOf (entries : List (Text × List (Text × Json))) : List (Text × Json) :=
  entries.map fun e => (e.1, .obj e.2)

/-- There is room to freeze the settings, as the object of all their entries. -/
def CanBeFrozen (s : RuleSettings) : Prop :=
  (Json.obj (fieldsOf s.entries)).nesting ≤ ReadOnly.maxDepth

theorem freezeViews_eq (entries : List (Text × List (Text × Json))) :
    freezeViews entries =
      Json.ifRoom (ReadOnly.maxDepth - 1) (Json.nestingFields (fieldsOf entries))
        (ofList entries).views := by
  induction entries with
  | nil => rfl
  | cons e entries ih =>
    obtain ⟨id, fields⟩ := e
    -- the entry is a level above its fields
    have hentry : Json.freezeFields (ReadOnly.maxDepth - 2) fields =
        Json.ifRoom (ReadOnly.maxDepth - 1) (Json.obj fields).nesting
          (Json.readOnlyFields fields) :=
      (Json.freezeFields_eq _ fields).trans (Json.ifRoom_succ _).symm
    rw [freezeViews, hentry, ih, Json.bind_ifRoom fun view rest => (id, view) :: rest]
    rfl

variable {s s' : RuleSettings}

theorem freeze_entries_eq :
    freeze s.entries =
      Json.ifRoom ReadOnly.maxDepth (Json.obj (fieldsOf s.entries)).nesting s := by
  rw [freeze, freezeViews_eq, ofList_entries, Json.map_ifRoom]
  rfl

/-- **Freezing the entries of settings** makes the settings, if there is room. -/
theorem freeze_entries_eq_ok_iff : freeze s.entries = .ok s' ↔ s.CanBeFrozen ∧ s = s' := by
  rw [freeze_entries_eq, Json.ifRoom, CanBeFrozen]
  split <;> rename_i hroom
  · exact ⟨fun hfrozen => ⟨hroom, Except.ok.inj hfrozen⟩, fun ⟨_, hsame⟩ => congrArg _ hsame⟩
  · exact iff_of_false nofun fun h => hroom h.1

theorem freeze_entries_of_not_canBeFrozen (hdeep : ¬ s.CanBeFrozen) :
    freeze s.entries = .error .depth := by
  rw [freeze_entries_eq]
  exact if_neg hdeep

end RuleSettings

end ProjectAudit
