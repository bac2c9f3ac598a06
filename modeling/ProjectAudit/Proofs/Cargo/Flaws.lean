import ProjectAudit.Cargo.Metadata

/-!
# The flaws of metadata

A value can be unfit for metadata in many places at once.  Reading it stops at the first of them;
here they are all listed, part by part, in the order in which the parts are read, and each list says
by itself what is wrong with its part.

There are two kinds of flaws.  A flaw of the first kind rejects the value with a wording of its
own: no list of packages, a package without a name, a kind of dependency that is not known.  A flaw
of the second kind is a value of a shape that nothing was prepared for: something to go through that
is no sequence, or a list or an object in the place of an id or of a kind.

* `StopsAt`: a computation fails with the first fault of a list, and has a value if the list is
  empty.  Sequences and passes over a list concatenate the lists of their parts.
* `Metadata.flawsOf`: the flaws of a value, of which `Metadata.ofJson` meets the first
  (`Metadata.stopsAt_ofJson`).
-/

namespace ProjectAudit

/-! ## The first fault of a list -/

section StopsAt

variable {ε α β : Type}

/-- The computation fails with the first of the faults, and has a value if there are none. -/
def StopsAt (r : Except ε α) (faults : List ε) : Prop :=
  match r with
  | .ok _ => faults = []
  | .error e => faults.head? = some e

theorem stopsAt_ok (a : α) : StopsAt (.ok a : Except ε α) [] :=
  rfl

theorem stopsAt_error (e : ε) (faults : List ε) : StopsAt (.error e : Except ε α) (e :: faults) :=
  rfl

theorem StopsAt.eq_error_iff {r : Except ε α} {faults : List ε} (h : StopsAt r faults) {e : ε} :
    r = .error e ↔ faults.head? = some e := by
  cases r with
  | ok a => simp [show faults = [] from h]
  | error e' => simp [show faults.head? = some e' from h]

theorem StopsAt.exists_eq_ok_iff {r : Except ε α} {faults : List ε} (h : StopsAt r faults) :
    (∃ a, r = .ok a) ↔ faults = [] := by
  cases r with
  | ok a => simp [show faults = [] from h]
  | error e =>
    have hhead : faults.head? = some e := h
    refine iff_of_false (by simp) fun hnil => ?_
    rw [hnil] at hhead
    cases hhead

/-- A sequence meets the faults of its first part, and then those of its second part. -/
theorem StopsAt.bind {r : Except ε α} {f : α → Except ε β} {first second : List ε}
    (hr : StopsAt r first) (hf : ∀ a, r = .ok a → StopsAt (f a) second) :
    StopsAt (r >>= f) (first ++ second) := by
  cases r with
  | ok a =>
    rw [show first = [] from hr, List.nil_append]
    exact hf a rfl
  | error e => exact List.head?_append.trans (by rw [show first.head? = some e from hr]; rfl)

theorem StopsAt.map {r : Except ε α} {faults : List ε} (h : StopsAt r faults) (f : α → β) :
    StopsAt (r >>= fun a => pure (f a)) faults := by
  rw [← List.append_nil faults]
  exact h.bind fun a _ => stopsAt_ok (f a)

/-- A pass over a list meets the faults of its items in turn. -/
theorem StopsAt.mapM {f : α → Except ε β} {faultsOf : α → List ε}
    (h : ∀ a, StopsAt (f a) (faultsOf a)) (l : List α) :
    StopsAt (l.mapM f) (l.flatMap faultsOf) := by
  induction l with
  | nil => exact stopsAt_ok []
  | cons a l ih =>
    rw [List.mapM_cons, List.flatMap_cons]
    exact (h a).bind fun b _ => ih.map (b :: ·)

end StopsAt

namespace Cargo.Metadata

/-! ## The flaws of the parts -/

/-- The values that `sequence` hands out. -/
def itemsOf : Json → List Json
  | .arr items => items
  | .str s => s.map fun c => .str [c]
  | .obj fields => fields.map fun field => .str field.1
  | _ => []

/-- A value to go through should be a list, a string, an object, or one that counts as nothing. -/
def sequenceFlaws (v : Json) : List Fault :=
  match v with
  | .arr _ | .str _ | .obj _ => []
  | v => if v.isEmptyValue then [] else [.misshapen]

/-- A kind should be absent or one of the known names.  A list or an object cannot be looked up. -/
def kindFlaws (kind : Json) (dependency : Text) : List Fault :=
  match kind with
  | .null => []
  | .arr _ | .obj _ => [.misshapen]
  | kind =>
    if kind.str?.any fun s => (DependencyKind.ofName? s).isSome then []
    else [.rejected (.unknownKind kind dependency)]

/-- Only a dependency with a name is looked at. -/
def dependencyFlaws (entry : Json) : List Fault :=
  ((entry.get "name").str?.map fun name => kindFlaws (entry.get "kind") name).getD []

/-- Only a target with a name is looked at. -/
def targetFlaws (entry : Json) : List Fault :=
  ((entry.get "name").str?.map fun _ => sequenceFlaws (entry.get "kind")).getD []

/-- A package should have a name, and be right in all of its dependencies and targets. -/
def packageFlaws (entry : Json) : List Fault :=
  (if (nonBlank? (entry.get "name")).isSome then [] else [.rejected .namelessPackage]) ++
    (sequenceFlaws (entry.get "dependencies") ++
      ((itemsOf (entry.get "dependencies")).flatMap dependencyFlaws ++
        (sequenceFlaws (entry.get "targets") ++
          (itemsOf (entry.get "targets")).flatMap targetFlaws)))

/-- The id of an object is looked up among the members, if there are any. -/
def idFlaws (members : List Text) (entry : Json) : List Fault :=
  match entry with
  | .obj _ => if members.isEmpty || isScalar (entry.get "id") then [] else [.misshapen]
  | _ => []

/-- An entry that is a package of the workspace: an object whose id is one of the members, if there
are any. -/
def isMember (members : List Text) (entry : Json) : Bool :=
  match entry with
  | .obj _ => members.isEmpty || (entry.get "id").str?.any members.contains
  | _ => false

/-- Only a package of the workspace has to be right. -/
def entryFlaws (members : List Text) (entry : Json) : List Fault :=
  idFlaws members entry ++ if isMember members entry then packageFlaws entry else []

/-- The flaws of a value. -/
def flawsOf (v : Json) : List Fault :=
  match v with
  | .obj fields =>
    match Json.fieldOf? "packages" fields with
    | some (.arr entries) => entries.flatMap (entryFlaws (memberIds (v.get "workspace_members")))
    | _ => [.rejected .noPackages]
  | _ => [.rejected .notObject]

/-! ## Reading stops at the first flaw -/

/-- A value without a flaw hands out its items. -/
theorem sequence_cases (v : Json) :
    sequenceFlaws v = [] ∧ sequence v = .ok (itemsOf v) ∨
      sequenceFlaws v = [.misshapen] ∧ sequence v = .error .misshapen := by
  cases v with
  | null => exact .inl ⟨rfl, rfl⟩
  | bool b =>
    cases b with
    | false => exact .inl ⟨rfl, rfl⟩
    | true => exact .inr ⟨rfl, rfl⟩
  | int n =>
    cases hempty : (Json.int n).isEmptyValue with
    | true => exact .inl ⟨by simp [sequenceFlaws, hempty], by simp [sequence, hempty, itemsOf]⟩
    | false => exact .inr ⟨by simp [sequenceFlaws, hempty], by simp [sequence, hempty]⟩
  | float x =>
    cases hempty : (Json.float x).isEmptyValue with
    | true => exact .inl ⟨by simp [sequenceFlaws, hempty], by simp [sequence, hempty, itemsOf]⟩
    | false => exact .inr ⟨by simp [sequenceFlaws, hempty], by simp [sequence, hempty]⟩
  | str s => cases s <;> exact .inl ⟨rfl, rfl⟩
  | arr items => cases items <;> exact .inl ⟨rfl, rfl⟩
  | obj fields => cases fields <;> exact .inl ⟨rfl, rfl⟩

theorem stopsAt_sequence (v : Json) : StopsAt (sequence v) (sequenceFlaws v) := by
  rcases sequence_cases v with ⟨hflaws, hvalue⟩ | ⟨hflaws, hvalue⟩
  · rw [hflaws, hvalue]
    exact stopsAt_ok _
  · rw [hflaws, hvalue]
    exact stopsAt_error _ _

theorem eq_itemsOf_of_sequence {v : Json} {items : List Json} (h : sequence v = .ok items) :
    items = itemsOf v := by
  rcases sequence_cases v with ⟨-, hvalue⟩ | ⟨-, hvalue⟩
  · rw [hvalue] at h
    exact (Except.ok.inj h).symm
  · rw [hvalue] at h
    cases h

theorem stopsAt_kindOf (kind : Json) (dependency : Text) :
    StopsAt (kindOf kind dependency) (kindFlaws kind dependency) := by
  cases kind with
  | str s => cases hname : DependencyKind.ofName? s <;>
      simp [kindOf, kindFlaws, Json.str?, hname, StopsAt]
  | null => exact rfl
  | bool b => exact rfl
  | int n => exact rfl
  | float x => exact rfl
  | arr items => exact rfl
  | obj fields => exact rfl

theorem stopsAt_dependencyOf? (entry : Json) :
    StopsAt (dependencyOf? entry) (dependencyFlaws entry) := by
  rw [dependencyOf?, dependencyFlaws]
  cases (entry.get "name").str? with
  | none => exact rfl
  | some name => exact (stopsAt_kindOf _ name).map _

theorem stopsAt_targetOf? (entry : Json) : StopsAt (targetOf? entry) (targetFlaws entry) := by
  rw [targetOf?, targetFlaws]
  cases (entry.get "name").str? with
  | none => exact rfl
  | some name => exact (stopsAt_sequence _).map _

theorem stopsAt_packageOf (entry : Json) : StopsAt (packageOf entry) (packageFlaws entry) := by
  rw [packageOf, packageFlaws]
  cases nonBlank? (entry.get "name") with
  | none => exact rfl
  | some name =>
    refine (stopsAt_sequence _).bind fun dependencies hdependencies => ?_
    rw [eq_itemsOf_of_sequence hdependencies]
    refine (StopsAt.mapM stopsAt_dependencyOf? _).bind fun _ _ => ?_
    refine (stopsAt_sequence _).bind fun targets htargets => ?_
    rw [eq_itemsOf_of_sequence htargets]
    exact (StopsAt.mapM stopsAt_targetOf? _).map _

theorem stopsAt_isSelected (members : List Text) (entry : Json) :
    StopsAt (isSelected members entry) (idFlaws members entry) := by
  cases entry with
  | obj fields =>
    rw [isSelected, idFlaws]
    cases members.isEmpty with
    | true => exact rfl
    | false => cases hscalar : isScalar (Json.get "id" (.obj fields)) <;> simp [hscalar, StopsAt]
  | _ => exact rfl

theorem eq_isMember_of_isSelected {members : List Text} {entry : Json} {selected : Bool}
    (h : isSelected members entry = .ok selected) : selected = isMember members entry := by
  cases entry with
  | obj fields =>
    rw [isSelected] at h
    rw [isMember]
    cases hmembers : members.isEmpty with
    | true =>
      rw [hmembers] at h
      cases h
      rfl
    | false =>
      simp only [hmembers, Bool.false_eq_true, if_false] at h
      split at h
      · cases h
        cases (Json.get "id" (.obj fields)).str? <;> rfl
      · cases h
  | _ => cases h; rfl

theorem stopsAt_packagesOf (members : List Text) (entries : List Json) :
    StopsAt (packagesOf members entries) (entries.flatMap (entryFlaws members)) := by
  induction entries with
  | nil => exact rfl
  | cons entry entries ih =>
    rw [packagesOf, List.flatMap_cons, entryFlaws, List.append_assoc]
    refine (stopsAt_isSelected members entry).bind fun selected hselected => ?_
    rw [← eq_isMember_of_isSelected hselected]
    cases selected with
    | false => exact ih
    | true => exact (stopsAt_packageOf entry).bind fun package _ => ih.map (package :: ·)

/-- **Reading metadata stops at the first flaw of the value**, and succeeds if it has none. -/
theorem stopsAt_ofJson (v : Json) : StopsAt (ofJson v) (flawsOf v) := by
  cases v with
  | obj fields =>
    rw [ofJson, flawsOf]
    rcases Json.fieldOf? "packages" fields with _ | packages
    · exact rfl
    · cases packages with
      | arr entries => exact (stopsAt_packagesOf _ entries).map _
      | _ => exact rfl
  | _ => exact rfl

/-! ## Texts -/

theorem limit_not_mem_sequenceFlaws (l : Json.Limit) (v : Json) : .limit l ∉ sequenceFlaws v := by
  rcases sequence_cases v with ⟨hflaws, -⟩ | ⟨hflaws, -⟩ <;> simp [hflaws]

theorem limit_not_mem_kindFlaws (l : Json.Limit) (kind : Json) (dependency : Text) :
    .limit l ∉ kindFlaws kind dependency := by
  unfold kindFlaws
  split
  · simp
  · simp
  · simp
  · split <;> simp

theorem limit_not_mem_packageFlaws (l : Json.Limit) (entry : Json) :
    .limit l ∉ packageFlaws entry := by
  have hdependency (d : Json) : .limit l ∉ dependencyFlaws d := by
    rw [dependencyFlaws]
    cases (d.get "name").str? with
    | none => simp
    | some name => exact limit_not_mem_kindFlaws l _ name
  have htarget (t : Json) : .limit l ∉ targetFlaws t := by
    rw [targetFlaws]
    cases (t.get "name").str? with
    | none => simp
    | some name => exact limit_not_mem_sequenceFlaws l _
  rw [packageFlaws]
  simp only [List.mem_append, List.mem_flatMap, limit_not_mem_sequenceFlaws, hdependency, htarget,
    and_false, exists_false, or_false]
  split <;> simp

/-- A value has no flaw but those of the two kinds. -/
theorem limit_not_mem_flawsOf (l : Json.Limit) (v : Json) : .limit l ∉ flawsOf v := by
  have hentry (members : List Text) (entry : Json) : .limit l ∉ entryFlaws members entry := by
    rw [entryFlaws, List.mem_append]
    rintro (hid | hpackage)
    · unfold idFlaws at hid
      split at hid
      · split at hid <;> simp at hid
      · simp at hid
    · split at hpackage
      · exact limit_not_mem_packageFlaws l entry hpackage
      · simp at hpackage
  unfold flawsOf
  split
  · split
    · simp [hentry]
    · simp
  · simp

/-- Reading the text was not prepared for what is in it: it goes beyond the limits of the reader, or
holds a value whose first flaw is one of shape. -/
def IsUnforeseen (s : Text) : Prop :=
  (∃ l, Json.read s = .error (.limit l)) ∨
    ∃ v, Json.read s = .ok v ∧ (flawsOf v).head? = some .misshapen

/-- A text is either metadata, or rejected, or unforeseen. -/
theorem ofText_cases (s : Text) :
    (∃ m, ofText s = .ok m) ∧ ¬ IsUnforeseen s ∨
      (∃ r, ofText s = .error (.rejected r)) ∧ ¬ IsUnforeseen s ∨
      (∃ fault, ofText s = .error fault ∧ ∀ r, fault ≠ .rejected r) ∧ IsUnforeseen s := by
  rw [ofText, IsUnforeseen]
  rcases Json.read s with (e | l) | v
  · exact .inr (.inl ⟨⟨_, rfl⟩, by simp⟩)
  · exact .inr (.inr ⟨⟨_, rfl, by simp⟩, .inl ⟨l, rfl⟩⟩)
  · simp only [reduceCtorEq, exists_false, Except.ok.injEq, exists_eq_left', false_or]
    have hstops := stopsAt_ofJson v
    rcases hvalue : ofJson v with fault | m
    · have hhead : (flawsOf v).head? = some fault := hstops.eq_error_iff.1 hvalue
      cases fault with
      | rejected r => exact .inr (.inl ⟨⟨r, rfl⟩, by simp [hhead]⟩)
      | misshapen => exact .inr (.inr ⟨⟨_, rfl, by simp⟩, hhead⟩)
      | limit l => exact absurd (List.mem_of_mem_head? hhead) (limit_not_mem_flawsOf l v)
    · have hnil : flawsOf v = [] := hstops.exists_eq_ok_iff.1 ⟨m, hvalue⟩
      exact .inl ⟨⟨m, rfl⟩, by simp [hnil]⟩

end Cargo.Metadata

end ProjectAudit
