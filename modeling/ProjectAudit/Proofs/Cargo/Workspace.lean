import ProjectAudit.Proofs.Cargo.Flaws
import ProjectAudit.Proofs.Text.Order
import Mathlib.Logic.Relation

/-!
# Packages outside the workspace

The tool describes every package that a project is built from, and most of them are not the
project's own.  Where the members of the workspace are known, metadata is read from the entries of
the members alone: all other entries may be missing, added or malformed, and the members may be
listed in any order and any number of times.

This is a statement about two payloads, and it holds of them because one step from the first towards
the second changes nothing (`Metadata.OutsideEdit.ofJson_eq`).  A step changes either the entries or
the list of members.  An entry that is looked up and not found is passed over before anything else
of it is read, so it can neither give a package nor a fault; and the list of members is only asked
which strings are in it.

* `Metadata.mem_ascending`, `Metadata.pairwise_ascending`: what the members are listed as.
* `Metadata.OutsideEdit`: the changes outside the workspace.
* `Metadata.ofJson_of_outsideEdits`: they do not change what is read, be it metadata or a fault.
-/

namespace ProjectAudit

/-- Erasing the repetitions leaves none. -/
theorem nodup_eraseDups {α : Type} [BEq α] [LawfulBEq α] (l : List α) : l.eraseDups.Nodup := by
  match l with
  | [] => exact List.nodup_nil
  | a :: l =>
    rw [List.eraseDups_cons, List.nodup_cons]
    refine ⟨?_, nodup_eraseDups (l.filter fun b => !b == a)⟩
    simp [List.mem_eraseDups]
termination_by l.length
decreasing_by exact Nat.lt_succ_of_le (List.length_filter_le _ _)

/-- An item that is inserted adds nothing if it is there already or is not looked for. -/
theorem mem_insert_iff_of_imp {α : Type} {before after : List α} {a b : α}
    (h : b = a → b ∈ before ++ after) : b ∈ before ++ a :: after ↔ b ∈ before ++ after := by
  rw [List.mem_append, List.mem_cons, or_left_comm, ← List.mem_append]
  exact or_iff_right_of_imp h

namespace Cargo.Metadata

variable {members members' : List Text} {fields fields' : List (Text × Json)}

/-! ## The list of members -/

theorem mem_ascending {names : List Text} {s : Text} : s ∈ ascending names ↔ s ∈ names := by
  rw [ascending, List.mem_mergeSort, List.mem_eraseDups]

theorem pairwise_le_ascending (names : List Text) :
    (ascending names).Pairwise fun s t => Text.le s t = true :=
  @List.pairwise_mergeSort _ Text.le (fun _ _ _ => Text.le_trans) Text.le_total _

theorem nodup_ascending (names : List Text) : (ascending names).Nodup :=
  (List.mergeSort_perm _ _).nodup_iff.2 (nodup_eraseDups names)

/-- The texts ascend strictly, in the order of the numbers of their code points. -/
theorem pairwise_ascending (names : List Text) :
    (ascending names).Pairwise fun s t =>
      List.Lex (· < ·) (s.map CodePoint.toNat) (t.map CodePoint.toNat) :=
  (pairwise_le_ascending names).imp₂ (fun _ _ => Text.lex_of_le_of_ne) (nodup_ascending names)

/-- Only which texts there are is of account. -/
theorem ascending_congr {a b : List Text} (h : ∀ s, s ∈ a ↔ s ∈ b) : ascending a = ascending b := by
  have hperm : (ascending a).Perm (ascending b) :=
    (List.perm_ext_iff_of_nodup (nodup_ascending a) (nodup_ascending b)).2 fun s => by
      rw [mem_ascending, mem_ascending, h]
  exact hperm.eq_of_pairwise (fun _ _ _ _ => Text.le_antisymm) (pairwise_le_ascending a)
    (pairwise_le_ascending b)

/-! ## The selection of packages -/

theorem mem_memberIds {items : List Json} {s : Text} :
    s ∈ memberIds (.arr items) ↔ Json.str s ∈ items := by
  rw [memberIds, List.mem_filterMap]
  constructor
  · rintro ⟨v, hv, hstr⟩
    cases v <;> simp_all [Json.str?]
  · exact fun h => ⟨_, h, rfl⟩

theorem isEmpty_memberIds {items : List Json} (hknown : ∃ s, Json.str s ∈ items) :
    (memberIds (.arr items)).isEmpty = false := by
  obtain ⟨s, hs⟩ := hknown
  exact List.isEmpty_eq_false_iff.2 (List.ne_nil_of_mem (mem_memberIds.2 hs))

/-- Only which members there are is of account. -/
theorem isSelected_congr (h : ∀ s, s ∈ members ↔ s ∈ members') (entry : Json) :
    isSelected members entry = isSelected members' entry := by
  have hempty : members.isEmpty = members'.isEmpty := by
    rw [Bool.eq_iff_iff, List.isEmpty_iff, List.isEmpty_iff, List.eq_nil_iff_forall_not_mem,
      List.eq_nil_iff_forall_not_mem]
    exact forall_congr' fun s => not_congr (h s)
  have hcontains : members.contains = members'.contains := by
    funext s
    rw [Bool.eq_iff_iff, List.contains_iff_mem, List.contains_iff_mem, h]
  cases entry with
  | obj entryFields => rw [isSelected, isSelected, hempty, hcontains]
  | _ => rfl

theorem packagesOf_congr (h : ∀ s, s ∈ members ↔ s ∈ members') (entries : List Json) :
    packagesOf members entries = packagesOf members' entries := by
  induction entries with
  | nil => rfl
  | cons entry entries ih => rw [packagesOf, packagesOf, isSelected_congr h, ih]

/-- An entry that is not selected can stand anywhere. -/
theorem packagesOf_insert {entry : Json} (h : isSelected members entry = .ok false)
    (before after : List Json) :
    packagesOf members (before ++ entry :: after) = packagesOf members (before ++ after) := by
  induction before with
  | nil =>
    rw [List.nil_append, packagesOf, h]
    rfl
  | cons first before ih => rw [List.cons_append, List.cons_append, packagesOf, packagesOf, ih]

/-- The packages are those of the members, in the order of the entries. -/
theorem mapM_of_packagesOf {entries : List Json} {packages : List Package}
    (h : packagesOf members entries = .ok packages) :
    (entries.filter (isMember members)).mapM packageOf = .ok packages := by
  induction entries generalizing packages with
  | nil => exact h
  | cons entry entries ih =>
    rw [packagesOf] at h
    cases hselected : isSelected members entry with
    | error fault =>
      rw [hselected] at h
      cases h
    | ok selected =>
      rw [hselected] at h
      have hmember := eq_isMember_of_isSelected hselected
      cases selected with
      | false =>
        rw [List.filter_cons_of_neg (by rw [← hmember]; exact Bool.false_ne_true)]
        exact ih h
      | true =>
        rw [List.filter_cons_of_pos hmember.symm, List.mapM_cons]
        cases hpackage : packageOf entry with
        | error fault => simp [hpackage, bind, Except.bind] at h
        | ok package =>
          cases hrest : packagesOf members entries with
          | error fault => simp [hpackage, hrest, bind, Except.bind] at h
          | ok rest =>
            rw [ih hrest]
            simpa [hpackage, hrest, bind, Except.bind] using h

/-! ## Changes outside the workspace -/

/-- An entry that is no package of the workspace with the given members: it is no object, or its id
is absent, or a scalar that is none of the members. -/
def IsOutside (members : List Json) (entry : Json) : Prop :=
  match entry with
  | .obj _ => isScalar (entry.get "id") = true ∧ ∀ s, entry.get "id" = .str s → .str s ∉ members
  | _ => True

theorem isSelected_of_isOutside {items : List Json} {entry : Json}
    (hknown : ∃ s, Json.str s ∈ items) (h : IsOutside items entry) :
    isSelected (memberIds (.arr items)) entry = .ok false := by
  cases entry with
  | obj entryFields =>
    obtain ⟨hscalar, hother⟩ := h
    rw [isSelected, isEmpty_memberIds hknown]
    simp only [Bool.false_eq_true, if_false, hscalar, if_true]
    cases hid : Json.get "id" (.obj entryFields) with
    | str s =>
      have hmem : s ∉ memberIds (.arr items) := fun hs => hother s hid (mem_memberIds.1 hs)
      simp [Json.str?, hmem]
    | _ => rfl
  | _ => rfl

theorem isMember_iff {items : List Json} {entry : Json} (hknown : ∃ s, Json.str s ∈ items) :
    isMember (memberIds (.arr items)) entry = true ↔
      ∃ entryFields s, entry = .obj entryFields ∧ Json.fieldOf? "id" entryFields = some (.str s) ∧
        Json.str s ∈ items := by
  cases entry with
  | obj entryFields =>
    rw [isMember, isEmpty_memberIds hknown, Bool.false_or, Json.get, Json.field?]
    rcases hid : Json.fieldOf? "id" entryFields with _ | (_ | _ | _ | _ | s | _ | _) <;>
      simp [hid, Json.str?, mem_memberIds]
  | _ => simp [isMember]

/-- A change of a payload outside its workspace. -/
inductive OutsideEdit : List (Text × Json) → List (Text × Json) → Prop
  /-- An entry is inserted. -/
  | insertEntry {fields : List (Text × Json)} {before after members : List Json} {entry : Json}
    (hpackages : Json.fieldOf? "packages" fields = some (.arr (before ++ after)))
    (hmembers : Json.fieldOf? "workspace_members" fields = some (.arr members))
    (houtside : IsOutside members entry) :
    OutsideEdit fields (Json.putField "packages" (.arr (before ++ entry :: after)) fields)
  /-- An entry is removed. -/
  | removeEntry {fields : List (Text × Json)} {before after members : List Json} {entry : Json}
    (hpackages : Json.fieldOf? "packages" fields = some (.arr (before ++ entry :: after)))
    (hmembers : Json.fieldOf? "workspace_members" fields = some (.arr members))
    (houtside : IsOutside members entry) :
    OutsideEdit fields (Json.putField "packages" (.arr (before ++ after)) fields)
  /-- The members are listed in another order. -/
  | permuteMembers {fields : List (Text × Json)} {members members' : List Json}
    (hmembers : Json.fieldOf? "workspace_members" fields = some (.arr members))
    (hperm : members.Perm members') :
    OutsideEdit fields (Json.putField "workspace_members" (.arr members') fields)
  /-- A member is listed once more. -/
  | repeatMember {fields : List (Text × Json)} {before after : List Json} {member : Json}
    (hmembers : Json.fieldOf? "workspace_members" fields = some (.arr (before ++ after)))
    (hmember : member ∈ before ++ after) :
    OutsideEdit fields
      (Json.putField "workspace_members" (.arr (before ++ member :: after)) fields)
  /-- Something that is no string is listed among the members. -/
  | insertNonString {fields : List (Text × Json)} {before after : List Json} {other : Json}
    (hmembers : Json.fieldOf? "workspace_members" fields = some (.arr (before ++ after)))
    (hother : ∀ s, other ≠ .str s) :
    OutsideEdit fields (Json.putField "workspace_members" (.arr (before ++ other :: after)) fields)

/-- A payload with a list of entries and a list of members, one of which at least is known. -/
structure IsWorkspace (fields : List (Text × Json)) (entries items : List Json) : Prop where
  packages : Json.fieldOf? "packages" fields = some (.arr entries)
  members : Json.fieldOf? "workspace_members" fields = some (.arr items)
  known : ∃ s, Json.str s ∈ items

/-- What is read of a payload, part by part. -/
theorem IsWorkspace.ofJson_eq {entries members : List Json}
    (h : IsWorkspace fields entries members) :
    ofJson (.obj fields) = (packagesOf (memberIds (.arr members)) entries).map fun packages =>
      { workspaceRoot := (Json.get "workspace_root" (.obj fields)).textOrEmpty
        packages, members := ascending (memberIds (.arr members)) } := by
  have hmembers : Json.get "workspace_members" (.obj fields) = .arr members := by
    rw [Json.get, Json.field?, h.members]
    rfl
  rw [ofJson]
  simp only [h.packages, hmembers]
  rfl

theorem workspaceRoot_putField {name : Text} (hname : Text.ofString "workspace_root" ≠ name)
    (v : Json) (fields : List (Text × Json)) :
    Json.get "workspace_root" (.obj (Json.putField name v fields)) =
      Json.get "workspace_root" (.obj fields) := by
  rw [Json.get, Json.get, Json.field?, Json.field?, Json.fieldOf?_putField_of_ne hname]

section Steps

variable {entries entries' items items' : List Json} (h : IsWorkspace fields entries items)

include h

/-- Other entries of which the same packages are read change nothing. -/
theorem IsWorkspace.putEntries
    (hsame : packagesOf (memberIds (.arr items)) entries' =
      packagesOf (memberIds (.arr items)) entries) :
    IsWorkspace (Json.putField "packages" (.arr entries') fields) entries' items ∧
      ofJson (.obj (Json.putField "packages" (.arr entries') fields)) = ofJson (.obj fields) := by
  have hworkspace : IsWorkspace (Json.putField "packages" (.arr entries') fields) entries' items :=
    ⟨Json.fieldOf?_putField_self _ _ _,
      (Json.fieldOf?_putField_of_ne (by decide) _ _).trans h.members, h.known⟩
  refine ⟨hworkspace, ?_⟩
  rw [hworkspace.ofJson_eq, h.ofJson_eq, workspaceRoot_putField (by decide), hsame]

/-- Another list of the same members changes nothing. -/
theorem IsWorkspace.putMembers (hsame : ∀ s, Json.str s ∈ items' ↔ Json.str s ∈ items) :
    IsWorkspace (Json.putField "workspace_members" (.arr items') fields) entries items' ∧
      ofJson (.obj (Json.putField "workspace_members" (.arr items') fields)) =
        ofJson (.obj fields) := by
  have hworkspace :
      IsWorkspace (Json.putField "workspace_members" (.arr items') fields) entries items' :=
    ⟨(Json.fieldOf?_putField_of_ne (by decide) _ _).trans h.packages,
      Json.fieldOf?_putField_self _ _ _, h.known.imp fun s => (hsame s).2⟩
  have hmembers : ∀ s, s ∈ memberIds (.arr items') ↔ s ∈ memberIds (.arr items) := fun s => by
    rw [mem_memberIds, mem_memberIds, hsame]
  refine ⟨hworkspace, ?_⟩
  rw [hworkspace.ofJson_eq, h.ofJson_eq, workspaceRoot_putField (by decide),
    packagesOf_congr hmembers, ascending_congr hmembers]

/-- **One change outside the workspace** leaves a workspace, and what is read of it. -/
theorem OutsideEdit.ofJson_eq (hedit : OutsideEdit fields fields') :
    (∃ entries' items', IsWorkspace fields' entries' items') ∧
      ofJson (.obj fields') = ofJson (.obj fields) := by
  cases hedit with
  | insertEntry hpackages hmembers houtside =>
    obtain rfl := Json.arr.inj (Option.some.inj (h.packages.symm.trans hpackages))
    obtain rfl := Json.arr.inj (Option.some.inj (h.members.symm.trans hmembers))
    have hpassed := isSelected_of_isOutside h.known houtside
    obtain ⟨hworkspace, hsame⟩ := h.putEntries (packagesOf_insert hpassed _ _)
    exact ⟨⟨_, _, hworkspace⟩, hsame⟩
  | removeEntry hpackages hmembers houtside =>
    obtain rfl := Json.arr.inj (Option.some.inj (h.packages.symm.trans hpackages))
    obtain rfl := Json.arr.inj (Option.some.inj (h.members.symm.trans hmembers))
    have hpassed := isSelected_of_isOutside h.known houtside
    obtain ⟨hworkspace, hsame⟩ := h.putEntries (packagesOf_insert hpassed _ _).symm
    exact ⟨⟨_, _, hworkspace⟩, hsame⟩
  | permuteMembers hmembers hperm =>
    obtain rfl := Json.arr.inj (Option.some.inj (h.members.symm.trans hmembers))
    obtain ⟨hworkspace, hsame⟩ := h.putMembers fun s => hperm.symm.mem_iff
    exact ⟨⟨_, _, hworkspace⟩, hsame⟩
  | repeatMember hmembers hmember =>
    obtain rfl := Json.arr.inj (Option.some.inj (h.members.symm.trans hmembers))
    obtain ⟨hworkspace, hsame⟩ := h.putMembers fun s => mem_insert_iff_of_imp fun heq =>
      heq ▸ hmember
    exact ⟨⟨_, _, hworkspace⟩, hsame⟩
  | insertNonString hmembers hother =>
    obtain rfl := Json.arr.inj (Option.some.inj (h.members.symm.trans hmembers))
    obtain ⟨hworkspace, hsame⟩ := h.putMembers fun s => mem_insert_iff_of_imp fun heq =>
      absurd heq.symm (hother s)
    exact ⟨⟨_, _, hworkspace⟩, hsame⟩

/-- Any number of changes outside the workspace leave what is read of it. -/
theorem ofJson_of_reflTransGen (hedits : Relation.ReflTransGen OutsideEdit fields fields') :
    (∃ entries' items', IsWorkspace fields' entries' items') ∧
      ofJson (.obj fields') = ofJson (.obj fields) := by
  induction hedits with
  | refl => exact ⟨⟨_, _, h⟩, rfl⟩
  | tail _ hedit ih =>
    obtain ⟨⟨entries', items', hworkspace⟩, hsame⟩ := ih
    obtain ⟨hworkspace', hsame'⟩ := OutsideEdit.ofJson_eq hworkspace hedit
    exact ⟨hworkspace', hsame'.trans hsame⟩

end Steps

/-- **Packages outside the workspace are of no account.**  In a payload with entries and members, of
which one at least is a string, no changes outside the workspace change what is read, be it metadata
or a fault.  The packages of the metadata are those of the member objects, in the order of the
entries, and its members are the strings among the members, each once and in ascending order. -/
theorem ofJson_of_outsideEdits {entries members : List Json}
    (hpackages : Json.fieldOf? "packages" fields = some (.arr entries))
    (hmembers : Json.fieldOf? "workspace_members" fields = some (.arr members))
    (hknown : ∃ s, Json.str s ∈ members) :
    (∀ edited, Relation.ReflTransGen OutsideEdit fields edited →
      ofJson (.obj edited) = ofJson (.obj fields)) ∧
    (∀ entry, isMember (memberIds (.arr members)) entry = true ↔
      ∃ entryFields s, entry = .obj entryFields ∧ Json.fieldOf? "id" entryFields = some (.str s) ∧
        Json.str s ∈ members) ∧
    ∀ m, ofJson (.obj fields) = .ok m →
      (entries.filter (isMember (memberIds (.arr members)))).mapM packageOf = .ok m.packages ∧
      (m.members.Pairwise fun s t =>
        List.Lex (· < ·) (s.map CodePoint.toNat) (t.map CodePoint.toNat)) ∧
      ∀ s, s ∈ m.members ↔ Json.str s ∈ members := by
  have h : IsWorkspace fields entries members := ⟨hpackages, hmembers, hknown⟩
  refine ⟨fun edited hedits => (ofJson_of_reflTransGen h hedits).2,
    fun entry => isMember_iff hknown, fun m hm => ?_⟩
  rw [h.ofJson_eq] at hm
  cases hread : packagesOf (memberIds (.arr members)) entries with
  | error fault =>
    rw [hread] at hm
    cases hm
  | ok packages =>
    rw [hread] at hm
    obtain rfl := Except.ok.inj hm
    exact ⟨mapM_of_packagesOf hread, pairwise_ascending _, fun s =>
      mem_ascending.trans mem_memberIds⟩

/-- A dependency with a number for its id and for its own dependencies, in front of the package of a
workspace that lists a member twice. -/
theorem ofJson_of_outsideEdits_stray :
    let package : Json := .obj [("id", .str "b"), ("name", .str "app")]
    let stray : Json := .obj [("id", .int 5), ("dependencies", .int 5)]
    let members : List Json := [.str "b", .null, .str "a", .str "b"]
    let fields : List (Text × Json) :=
      [("packages", .arr [package]), ("workspace_members", .arr members)]
    let edited := Json.putField "packages" (.arr [stray, package]) fields
    Json.fieldOf? "packages" fields = some (.arr [package]) ∧
      Json.fieldOf? "workspace_members" fields = some (.arr members) ∧
      (∃ s, Json.str s ∈ members) ∧ Relation.ReflTransGen OutsideEdit fields edited ∧
      ofJson (.obj edited) = ofJson (.obj fields) ∧
      ∃ m, ofJson (.obj fields) = .ok m ∧ [package].mapM packageOf = .ok m.packages ∧
        ∀ s, s ∈ m.members ↔ Json.str s ∈ members := by
  intro package stray members fields edited
  have hmembers : Json.fieldOf? "workspace_members" fields = some (.arr members) := by rfl
  have hknown : ∃ s, Json.str s ∈ members := ⟨"b", .head _⟩
  have hstray : IsOutside members stray := ⟨by rfl, fun s hs => by cases hs⟩
  have hpackages : Json.fieldOf? "packages" fields = some (.arr [package]) := by rfl
  have hedit : OutsideEdit fields edited :=
    @OutsideEdit.insertEntry fields [] [package] members stray hpackages hmembers hstray
  obtain ⟨hsame, -, hread⟩ := ofJson_of_outsideEdits hpackages hmembers hknown
  obtain ⟨m, hvalue⟩ := (stopsAt_ofJson (.obj fields)).exists_eq_ok_iff.2 (by rfl)
  obtain ⟨hfound, -, hlisted⟩ := hread m hvalue
  exact ⟨hpackages, hmembers, hknown, .single hedit, hsame edited (.single hedit), m, hvalue,
    hfound, hlisted⟩

end Cargo.Metadata

end ProjectAudit
