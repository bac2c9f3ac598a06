import ProjectAudit.Proofs.Cargo.Workspace
import ProjectAudit.Proofs.Run.Faulting
import ProjectAudit.Proofs.Text.Lines
import Mathlib.Data.List.Forall2

/-!
# What packages are read as

The packages of a workspace are described by the entries that are selected, one by one.  What an
entry describes is said here without the reader: which package it is, which of its parts are
dependencies and targets of it, and what makes it unfit.

Two things can make an entry unfit, a name that is missing or blank and a kind of dependency that is
not known, and the name is looked at first.  That is so for entries of the expected shape, with
lists where lists should stand and no list or object where something is looked up; for all others
the flaws of shape come in between (`Metadata.flawsOf`).

* `Metadata.Describes`: an entry describes a package.
* `Metadata.IsFit`, `Metadata.Rejects`: an entry that describes a package, and why one does not.
* `Metadata.ofJson_describes`: reading gives what is described, or rejects the first unfit entry.
-/

namespace ProjectAudit

namespace Text

/-- Trimming leaves something of a text exactly if there is something besides blanks in it. -/
theorem isEmpty_trim_eq_false_iff {t : Text} :
    (trim t).isEmpty = false ↔ ∃ c ∈ t, isBlank c = false := by
  obtain ⟨front, back, ht, hfront, hback⟩ := exists_trim t
  rw [List.isEmpty_eq_false_iff]
  constructor
  · intro hne
    by_contra hno
    have hblank : ∀ c ∈ t, isBlank c = true := fun c hc => by
      simpa using fun hfalse => hno ⟨c, hc, hfalse⟩
    refine hne ?_
    rw [trim, trimBy, List.dropWhile_eq_nil_iff.2 hblank]
    rfl
  · rintro ⟨c, hc, hnot⟩ hnil
    rw [ht, hnil, List.append_nil] at hc
    rcases List.mem_append.1 hc with hc | hc
    · exact absurd (hfront c hc) (by simp [hnot])
    · exact absurd (hback c hc) (by simp [hnot])

end Text

/-! ## Going through a list -/

section Lists

variable {ε α β : Type} {R : α → β → Prop}

/-- What going through a list comes to, item by item. -/
theorem forall₂_of_mapM {f : α → Except ε β} {l : List α} {bs : List β} (h : l.mapM f = .ok bs) :
    List.Forall₂ (fun a b => f a = .ok b) l bs := by
  induction l generalizing bs with
  | nil =>
    obtain rfl := Except.ok.inj h
    exact .nil
  | cons a l ih =>
    rw [List.mapM_cons] at h
    obtain ⟨b, hb, h⟩ := bind_eq_ok.1 h
    obtain ⟨rest, hrest, h⟩ := bind_eq_ok.1 h
    obtain rfl := Except.ok.inj h
    exact .cons hb (ih hrest)

/-- Items of which one class gives something each and the others nothing are related to what they
give, class by class. -/
theorem forall₂_filter_filterMap {p : α → Bool} {l : List α} {os : List (Option β)}
    (h : List.Forall₂ (fun a o => if p a then ∃ b, o = some b ∧ R a b else o = none) l os) :
    List.Forall₂ R (l.filter p) (os.filterMap id) := by
  induction h with
  | nil => exact .nil
  | @cons a o l os hao _ ih =>
    cases hp : p a with
    | true =>
      rw [hp, if_pos rfl] at hao
      obtain ⟨b, rfl, hab⟩ := hao
      rw [List.filter_cons_of_pos hp]
      exact .cons hab ih
    | false =>
      rw [hp, if_neg Bool.false_ne_true] at hao
      rw [List.filter_cons_of_neg (by simp [hp]), List.filterMap_cons_none hao]
      exact ih

/-- Items that give nothing can be left out. -/
theorem flatMap_filter_of_nil {f : α → List β} {p : α → Bool} {l : List α}
    (h : ∀ a ∈ l, p a = false → f a = []) : (l.filter p).flatMap f = l.flatMap f := by
  induction l with
  | nil => rfl
  | cons a l ih =>
    obtain ⟨ha, hl⟩ := List.forall_mem_cons.1 h
    cases hp : p a with
    | true => rw [List.filter_cons_of_pos hp, List.flatMap_cons, List.flatMap_cons, ih hl]
    | false =>
      rw [List.filter_cons_of_neg (by simp [hp]), List.flatMap_cons, ih hl, ha hp, List.nil_append]

/-- If each item is good and gives nothing, or is bad and gives what comes of it, then all items are
good, or there is a first bad one, and what comes of that is the first thing that is given. -/
theorem forall_or_first {good : α → Prop} {f : α → List β} {l : List α}
    (h : ∀ a ∈ l, good a ∧ f a = [] ∨ ∃ b, R a b ∧ (f a).head? = some b) :
    (∀ a ∈ l, good a) ∧ l.flatMap f = [] ∨
      ∃ before a after b, l = before ++ a :: after ∧ (∀ x ∈ before, good x) ∧ R a b ∧
        (l.flatMap f).head? = some b := by
  induction l with
  | nil => exact .inl ⟨nofun, rfl⟩
  | cons a l ih =>
    obtain ⟨ha, hl⟩ := List.forall_mem_cons.1 h
    rw [List.flatMap_cons]
    rcases ha with ⟨hgood, hnil⟩ | ⟨b, hbad, hb⟩
    · rw [hnil, List.nil_append]
      rcases ih hl with ⟨hall, hrest⟩ | ⟨before, x, after, b, rfl, hbefore, hx, hb⟩
      · exact .inl ⟨List.forall_mem_cons.2 ⟨hgood, hall⟩, hrest⟩
      · exact .inr ⟨a :: before, x, after, b, rfl, List.forall_mem_cons.2 ⟨hgood, hbefore⟩, hx, hb⟩
    · refine .inr ⟨[], a, l, b, rfl, nofun, hbad, ?_⟩
      rw [List.head?_append, hb, Option.some_or]

end Lists

namespace Cargo.Metadata

/-! ## Shapes -/

/-- A list, or nothing at all. -/
def isListed : Json → Bool
  | .null | .arr _ => true
  | _ => false

/-- An entry that has a name. -/
def isNamed (entry : Json) : Bool :=
  (entry.get "name").str?.isSome

/-- An entry with lists where lists should stand, and with nothing in the place of a dependency's
kind that cannot be looked up. -/
structure IsShaped (entry : Json) : Prop where
  dependencies : isListed (entry.get "dependencies") = true
  targets : isListed (entry.get "targets") = true
  dependencyKinds : ∀ d ∈ itemsOf (entry.get "dependencies"), isNamed d = true →
    isScalar (d.get "kind") = true
  targetKinds : ∀ t ∈ itemsOf (entry.get "targets"), isNamed t = true →
    isListed (t.get "kind") = true

theorem isNamed_iff {entry : Json} : isNamed entry = true ↔ ∃ s, entry.get "name" = .str s := by
  simp only [isNamed, Option.isSome_iff_exists, Json.str?_eq_some]

theorem sequenceFlaws_of_isListed {v : Json} (h : isListed v = true) : sequenceFlaws v = [] := by
  cases v with
  | null => rfl
  | arr items => rfl
  | _ => cases h

/-! ## What entries describe -/

/-- The value names the kind of a dependency; no value names the normal one. -/
inductive NamesKind : Json → DependencyKind → Prop
  | absent : NamesKind .null .normal
  | named (kind : DependencyKind) : NamesKind (.str kind.name) kind

/-- The entry describes the dependency. -/
structure DescribesDependency (entry : Json) (d : Dependency) : Prop where
  name : entry.get "name" = .str d.name
  kind : NamesKind (entry.get "kind") d.kind
  req : d.req = (entry.get "req").textOrEmpty

/-- The entry describes the target. -/
structure DescribesTarget (entry : Json) (t : Target) : Prop where
  name : entry.get "name" = .str t.name
  kinds : t.kinds = (itemsOf (entry.get "kind")).map Json.plainText
  sourcePath : t.sourcePath = (entry.get "src_path").textOrEmpty

/-- The entry describes the package: its dependencies and targets are those that the parts with a
name describe, one for each, in their order. -/
structure Describes (entry : Json) (p : Package) : Prop where
  name : entry.get "name" = .str p.name
  version : p.version = (entry.get "version").textOrEmpty
  manifestPath : p.manifestPath = (entry.get "manifest_path").textOrEmpty
  dependencies : List.Forall₂ DescribesDependency
    ((itemsOf (entry.get "dependencies")).filter isNamed) p.dependencies
  targets : List.Forall₂ DescribesTarget ((itemsOf (entry.get "targets")).filter isNamed) p.targets

/-- The name of the entry is a string that is not made of blanks alone. -/
def IsProperlyNamed (entry : Json) : Prop :=
  ∃ s, entry.get "name" = .str s ∧ ∃ c ∈ s, Text.isBlank c = false

/-- The entry is fit to describe a package: it has a proper name, and its dependencies are of known
kinds. -/
structure IsFit (entry : Json) : Prop where
  name : IsProperlyNamed entry
  kinds : ∀ d ∈ itemsOf (entry.get "dependencies"), isNamed d = true →
    ∃ kind, NamesKind (d.get "kind") kind

/-- Why an entry is unfit: for its name, or else for the first dependency of a kind that is not
known. -/
inductive Rejects (entry : Json) : Rejection → Prop
  | nameless (hname : ¬ IsProperlyNamed entry) : Rejects entry .namelessPackage
  | unknownKind {before after : List Json} {d : Json} {s : Text} (hname : IsProperlyNamed entry)
    (hdependencies : (itemsOf (entry.get "dependencies")).filter isNamed = before ++ d :: after)
    (hbefore : ∀ b ∈ before, ∃ kind, NamesKind (b.get "kind") kind) (hd : d.get "name" = .str s)
    (hkind : ∀ kind, ¬ NamesKind (d.get "kind") kind) :
    Rejects entry (.unknownKind (d.get "kind") s)

/-! ## What is read is described -/

theorem eq_name_of_ofName? {s : Text} {kind : DependencyKind}
    (h : DependencyKind.ofName? s = some kind) : s = Text.ofString kind.name := by
  have hname := List.find?_some h
  exact (beq_iff_eq.1 hname).symm

theorem namesKind_of_kindOf {v : Json} {dependency : Text} {kind : DependencyKind}
    (h : kindOf v dependency = .ok kind) : NamesKind v kind := by
  cases v with
  | null =>
    obtain rfl := Except.ok.inj h
    exact .absent
  | str s =>
    rw [kindOf] at h
    cases hname : DependencyKind.ofName? s with
    | none =>
      rw [hname] at h
      cases h
    | some found =>
      rw [hname] at h
      obtain rfl := Except.ok.inj h
      rw [eq_name_of_ofName? hname]
      exact .named found
  | _ => cases h

theorem describesDependency_of_dependencyOf? {entry : Json} {d? : Option Dependency}
    (h : dependencyOf? entry = .ok d?) :
    if isNamed entry then ∃ d, d? = some d ∧ DescribesDependency entry d else d? = none := by
  rw [dependencyOf?] at h
  cases hname : (entry.get "name").str? with
  | none =>
    rw [hname] at h
    rw [isNamed, hname]
    exact (Except.ok.inj h).symm
  | some name =>
    rw [hname] at h
    obtain ⟨kind, hkind, h⟩ := bind_eq_ok.1 h
    rw [isNamed, hname]
    exact ⟨_, (Except.ok.inj h).symm, Json.str?_eq_some.1 hname, namesKind_of_kindOf hkind, rfl⟩

theorem describesTarget_of_targetOf? {entry : Json} {t? : Option Target}
    (h : targetOf? entry = .ok t?) :
    if isNamed entry then ∃ t, t? = some t ∧ DescribesTarget entry t else t? = none := by
  rw [targetOf?] at h
  cases hname : (entry.get "name").str? with
  | none =>
    rw [hname] at h
    rw [isNamed, hname]
    exact (Except.ok.inj h).symm
  | some name =>
    rw [hname] at h
    obtain ⟨kinds, hkinds, h⟩ := bind_eq_ok.1 h
    rw [isNamed, hname]
    refine ⟨_, (Except.ok.inj h).symm, Json.str?_eq_some.1 hname, ?_, rfl⟩
    rw [eq_itemsOf_of_sequence hkinds]

theorem nonBlank?_eq_some {v : Json} {s : Text} (h : nonBlank? v = some s) :
    v = .str s ∧ ∃ c ∈ s, Text.isBlank c = false := by
  obtain ⟨hv, htrim⟩ := Option.filter_eq_some_iff.1 h
  exact ⟨Json.str?_eq_some.1 hv, Text.isEmpty_trim_eq_false_iff.1 (by simpa using htrim)⟩

/-- **A package that is read is the one that its entry describes.** -/
theorem describes_of_packageOf {entry : Json} {p : Package} (h : packageOf entry = .ok p) :
    Describes entry p := by
  rw [packageOf] at h
  cases hname : nonBlank? (entry.get "name") with
  | none =>
    rw [hname] at h
    cases h
  | some name =>
    rw [hname] at h
    obtain ⟨items, hitems, h⟩ := bind_eq_ok.1 h
    obtain ⟨dependencies, hdependencies, h⟩ := bind_eq_ok.1 h
    obtain ⟨targetItems, htargetItems, h⟩ := bind_eq_ok.1 h
    obtain ⟨targets, htargets, h⟩ := bind_eq_ok.1 h
    obtain rfl := Except.ok.inj h
    rw [eq_itemsOf_of_sequence hitems] at hdependencies
    rw [eq_itemsOf_of_sequence htargetItems] at htargets
    exact {
      name := (nonBlank?_eq_some hname).1
      version := rfl
      manifestPath := rfl
      dependencies := forall₂_filter_filterMap <| (forall₂_of_mapM hdependencies).imp
        fun _ _ => describesDependency_of_dependencyOf?
      targets := forall₂_filter_filterMap <| (forall₂_of_mapM htargets).imp
        fun _ _ => describesTarget_of_targetOf? }

/-! ## Unfit entries are rejected -/

theorem isProperlyNamed_iff {entry : Json} :
    (nonBlank? (entry.get "name")).isSome = true ↔ IsProperlyNamed entry := by
  rw [Option.isSome_iff_exists]
  constructor
  · rintro ⟨s, hs⟩
    exact ⟨s, nonBlank?_eq_some hs⟩
  · rintro ⟨s, hname, hs⟩
    refine ⟨s, Option.filter_eq_some_iff.2 ⟨Json.str?_eq_some.2 hname, ?_⟩⟩
    simpa using Text.isEmpty_trim_eq_false_iff.2 hs

/-- A dependency whose kind can be looked up is of a known kind, or has a flaw. -/
theorem dependencyFlaws_cases {d : Json} (hnamed : isNamed d = true)
    (hscalar : isScalar (d.get "kind") = true) :
    (∃ kind, NamesKind (d.get "kind") kind) ∧ dependencyFlaws d = [] ∨
      ∃ fault, (∃ s, d.get "name" = .str s ∧ (∀ kind, ¬ NamesKind (d.get "kind") kind) ∧
        fault = .rejected (.unknownKind (d.get "kind") s)) ∧
          (dependencyFlaws d).head? = some fault := by
  obtain ⟨name, hname⟩ := isNamed_iff.1 hnamed
  have hflaws : dependencyFlaws d = kindFlaws (d.get "kind") name := by
    rw [dependencyFlaws, hname]
    rfl
  rw [hflaws]
  generalize hkind : d.get "kind" = v at hscalar
  have hunknown (hv : ∀ kind, ¬ NamesKind v kind) :
      ∃ s, d.get "name" = .str s ∧ (∀ kind, ¬ NamesKind v kind) ∧
        Fault.rejected (.unknownKind v name) = .rejected (.unknownKind v s) :=
    ⟨name, hname, hv, rfl⟩
  cases v with
  | null => exact .inl ⟨⟨_, .absent⟩, rfl⟩
  | str s =>
    cases hs : DependencyKind.ofName? s with
    | some kind =>
      refine .inl ⟨⟨kind, ?_⟩, by simp [kindFlaws, Json.str?, hs]⟩
      rw [eq_name_of_ofName? hs]
      exact .named kind
    | none =>
      refine .inr ⟨_, hunknown fun kind hk => ?_, by simp [kindFlaws, Json.str?, hs]⟩
      cases hk with
      | named kind => cases hs.symm.trans (DependencyKind.ofName?_name kind)
  | arr items => cases hscalar
  | obj fields => cases hscalar
  | _ => exact .inr ⟨_, hunknown (fun _ hk => by cases hk), rfl⟩

/-- The flaws of an entry of the expected shape are those of its name and of its dependencies. -/
theorem IsShaped.packageFlaws_eq {entry : Json} (h : IsShaped entry) :
    packageFlaws entry =
      (if (nonBlank? (entry.get "name")).isSome then [] else [.rejected .namelessPackage]) ++
        ((itemsOf (entry.get "dependencies")).filter isNamed).flatMap dependencyFlaws := by
  have htargets : (itemsOf (entry.get "targets")).flatMap targetFlaws = [] := by
    rw [List.flatMap_eq_nil_iff]
    intro t ht
    rw [targetFlaws]
    cases hname : (t.get "name").str? with
    | none => rfl
    | some name =>
      exact sequenceFlaws_of_isListed (h.targetKinds t ht (by rw [isNamed, hname]; rfl))
  have hdependencies : ∀ d ∈ itemsOf (entry.get "dependencies"), isNamed d = false →
      dependencyFlaws d = [] := by
    intro d _ hunnamed
    rw [dependencyFlaws, Option.isSome_eq_false_iff.1 hunnamed |> Option.isNone_iff_eq_none.1]
    rfl
  rw [packageFlaws, sequenceFlaws_of_isListed h.dependencies, sequenceFlaws_of_isListed h.targets,
    htargets, flatMap_filter_of_nil hdependencies]
  simp

/-- An entry of the expected shape is fit and has no flaw, or it is rejected for its first one. -/
theorem IsShaped.isFit_or_rejects {entry : Json} (h : IsShaped entry) :
    IsFit entry ∧ packageFlaws entry = [] ∨
      ∃ fault, (∃ r, fault = .rejected r ∧ Rejects entry r) ∧
        (packageFlaws entry).head? = some fault := by
  rw [h.packageFlaws_eq]
  by_cases hname : IsProperlyNamed entry
  · rw [if_pos (isProperlyNamed_iff.2 hname), List.nil_append]
    rcases forall_or_first fun d hd => dependencyFlaws_cases (List.mem_filter.1 hd).2
        (h.dependencyKinds d (List.mem_filter.1 hd).1 (List.mem_filter.1 hd).2) with
      ⟨hknown, hnil⟩ | ⟨before, d, after, fault, hsplit, hbefore, ⟨s, hs, hkind, rfl⟩, hhead⟩
    · exact .inl ⟨⟨hname, fun d hd hnamed => hknown d (List.mem_filter.2 ⟨hd, hnamed⟩)⟩, hnil⟩
    · exact .inr ⟨_, ⟨_, rfl, .unknownKind hname hsplit hbefore hs hkind⟩, hhead⟩
  · rw [if_neg (by rwa [isProperlyNamed_iff])]
    exact .inr ⟨_, ⟨_, rfl, .nameless hname⟩, rfl⟩

theorem Rejects.not_isFit {entry : Json} {r : Rejection} (h : Rejects entry r) : ¬ IsFit entry := by
  intro hfit
  cases h with
  | nameless hname => exact hname hfit.name
  | unknownKind hname hdependencies hbefore hd hkind =>
    rename_i before after d s
    have hmem : d ∈ (itemsOf (entry.get "dependencies")).filter isNamed := by simp [hdependencies]
    obtain ⟨hmem, hnamed⟩ := List.mem_filter.1 hmem
    obtain ⟨kind, hk⟩ := hfit.kinds d hmem hnamed
    exact hkind kind hk

/-! ## Reading a payload -/

/-- The members that a payload knows. -/
def membersIn (fields : List (Text × Json)) : List Text :=
  memberIds (Json.get "workspace_members" (.obj fields))

/-- The entries that are selected from those of a payload: the objects whose ids are among the
members, or all objects if no member is known. -/
def selectedIn (fields : List (Text × Json)) (entries : List Json) : List Json :=
  entries.filter (isMember (membersIn fields))

/-- Where ids can be looked up, the flaws of the entries are those of the selected ones. -/
theorem flatMap_entryFlaws {members : List Text} {entries : List Json}
    (hids : members ≠ [] → ∀ entry ∈ entries, isScalar (entry.get "id") = true) :
    entries.flatMap (entryFlaws members) =
      (entries.filter (isMember members)).flatMap packageFlaws := by
  have hid : ∀ entry ∈ entries, idFlaws members entry = [] := by
    intro entry hentry
    rw [idFlaws.eq_def]
    split
    · refine if_pos ?_
      by_cases hmembers : members = []
      · simp [hmembers]
      · simp [hids hmembers _ hentry]
    · rfl
  have hother : ∀ entry ∈ entries, isMember members entry = false →
      entryFlaws members entry = [] := by
    intro entry hentry hother
    rw [entryFlaws, hid entry hentry, hother]
    rfl
  rw [← flatMap_filter_of_nil hother]
  refine List.flatMap_congr fun entry hentry => ?_
  obtain ⟨hmem, hmember⟩ := List.mem_filter.1 hentry
  rw [entryFlaws, hid entry hmem, hmember, if_pos rfl, List.nil_append]

/-- **Reading metadata is faithful.**  If the entries that are selected from a payload are of the
expected shape, and ids can be looked up, then the payload is read exactly if each of these entries
is fit; what is read then is one package for each of them, in their order, and each is the one that
its entry describes.  If one of them is unfit, the payload is rejected for the first one that is. -/
theorem ofJson_describes {fields : List (Text × Json)} {entries : List Json}
    (hpackages : Json.fieldOf? "packages" fields = some (.arr entries))
    (hids : membersIn fields ≠ [] → ∀ entry ∈ entries, isScalar (entry.get "id") = true)
    (hshaped : ∀ entry ∈ selectedIn fields entries, IsShaped entry) :
    ((∃ m, ofJson (.obj fields) = .ok m) ↔ ∀ entry ∈ selectedIn fields entries, IsFit entry) ∧
    (∀ m, ofJson (.obj fields) = .ok m →
      List.Forall₂ Describes (selectedIn fields entries) m.packages ∧
        m.workspaceRoot = (Json.get "workspace_root" (.obj fields)).textOrEmpty ∧
        m.members = ascending (membersIn fields)) ∧
    ((∃ entry ∈ selectedIn fields entries, ¬ IsFit entry) → ∃ before entry after r,
      selectedIn fields entries = before ++ entry :: after ∧ (∀ b ∈ before, IsFit b) ∧
        Rejects entry r ∧ ofJson (.obj fields) = .error (.rejected r)) := by
  have hflaws : flawsOf (.obj fields) = (selectedIn fields entries).flatMap packageFlaws := by
    rw [flawsOf]
    simp only [hpackages]
    exact flatMap_entryFlaws hids
  have hstops := stopsAt_ofJson (.obj fields)
  rw [hflaws] at hstops
  have hcases := forall_or_first fun entry hentry => (hshaped entry hentry).isFit_or_rejects
  refine ⟨?_, fun m hm => ?_, ?_⟩
  · rw [hstops.exists_eq_ok_iff]
    rcases hcases with ⟨hfit, hnil⟩ | ⟨before, entry, after, fault, hsplit, -, ⟨r, -, hr⟩, hhead⟩
    · exact iff_of_true hnil hfit
    · refine iff_of_false (fun hnil => ?_) fun hfit => hr.not_isFit (hfit entry ?_)
      · rw [hnil] at hhead
        cases hhead
      · rw [hsplit]
        exact List.mem_append_right _ List.mem_cons_self
  · rw [ofJson] at hm
    simp only [hpackages] at hm
    obtain ⟨packages, hread, hm⟩ := bind_eq_ok.1 hm
    obtain rfl := Except.ok.inj hm
    exact ⟨(forall₂_of_mapM (mapM_of_packagesOf hread)).imp fun _ _ => describes_of_packageOf, rfl,
      rfl⟩
  · rintro ⟨unfit, hmem, hunfit⟩
    rcases hcases with
    ⟨hfit, -⟩ | ⟨before, entry, after, fault, hsplit, hbefore, ⟨r, rfl, hr⟩, hhead⟩
    · exact absurd (hfit unfit hmem) hunfit
    · exact ⟨before, entry, after, r, hsplit, hbefore, hr, hstops.eq_error_iff.2 hhead⟩

/-- A package with a dependency of no kind and a target, a stray one without a name, and a package
with a dependency of a kind in capital letters, which is the first unfit one. -/
theorem ofJson_describes_capitals :
    let app : Json := .obj [("id", .str "a"), ("name", .str "app"),
      ("dependencies", .arr [.obj [("name", .str "log")], .int 3]),
      ("targets", .arr [.obj [("name", .str "app"), ("kind", .arr [.str "bin"])]])]
    let stray : Json := .obj [("id", .int 5), ("dependencies", .int 5)]
    let tool : Json := .obj [("id", .str "b"), ("name", .str "tool"),
      ("dependencies", .arr [.obj [("name", .str "proptest"), ("kind", .str "DEV")]])]
    let fields : List (Text × Json) := [("packages", .arr [app, stray, tool]),
      ("workspace_members", .arr [.str "b", .str "a"])]
    Json.fieldOf? "packages" fields = some (.arr [app, stray, tool]) ∧
      (membersIn fields ≠ [] → ∀ entry ∈ [app, stray, tool], isScalar (entry.get "id") = true) ∧
      (∀ entry ∈ selectedIn fields [app, stray, tool], IsShaped entry) ∧
      ∃ before entry after r, [app, tool] = before ++ entry :: after ∧ (∀ b ∈ before, IsFit b) ∧
        Rejects entry r ∧ ofJson (.obj fields) = .error (.rejected r) := by
  intro app stray tool fields
  have hpackages : Json.fieldOf? "packages" fields = some (.arr [app, stray, tool]) := by rfl
  have hids : membersIn fields ≠ [] →
      ∀ entry ∈ [app, stray, tool], isScalar (entry.get "id") = true := fun _ => by decide
  have hselected : selectedIn fields [app, stray, tool] = [app, tool] := by rfl
  have happ : IsShaped app := ⟨by decide, by decide, by decide, by decide⟩
  have htool : IsShaped tool := ⟨by decide, by decide, by decide, by decide⟩
  have hshaped : ∀ entry ∈ selectedIn fields [app, stray, tool], IsShaped entry := by
    rw [hselected]
    exact List.forall_mem_cons.2 ⟨happ, List.forall_mem_cons.2 ⟨htool, nofun⟩⟩
  obtain ⟨hread, -, hrejected⟩ := ofJson_describes hpackages hids hshaped
  have hnone : ¬ ∃ m, ofJson (.obj fields) = .ok m := by
    rintro ⟨m, hm⟩
    have hvalue : ofJson (.obj fields) =
        .error (.rejected (.unknownKind (.str "DEV") "proptest")) := by rfl
    cases hvalue.symm.trans hm
  have hunfit : ∃ entry ∈ selectedIn fields [app, stray, tool], ¬ IsFit entry := by
    simpa using hread.not.1 hnone
  refine ⟨hpackages, hids, hshaped, ?_⟩
  rw [← hselected]
  exact hrejected hunfit

end Cargo.Metadata

end ProjectAudit
