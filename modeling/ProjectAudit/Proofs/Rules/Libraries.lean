import ProjectAudit.Proofs.Pattern.Words
import ProjectAudit.Proofs.Run.Calling
import ProjectAudit.Rules.BuiltIn
import Mathlib.Data.List.Forall2

/-!
# Libraries that packages depend on

The rule about property based tests asks each package for a dependency on one of the libraries.  It
puts their names into one pattern, so that what counts is what the pattern accepts: names that begin
with the name of a library, unless that library is not heeded.

Where all libraries are heeded, more libraries and more dependencies can only help.  Where a further
library makes one unheeded, it can also take a success away.

* `Rules.usesLibrary_iff`: when a package depends on a library.
* `Rules.Extends.usesLibraries`, `Rules.Reorders`: other packages, settings and orders.
* `BuiltIn.propertyTesting_decides`: the rule.
* `BuiltIn.propertyTesting_unheeded`: a library too many.
-/

namespace ProjectAudit

open Text

namespace Rules

variable {c c' : Context} {s s' : Settings.PropertyTesting} {p : Cargo.Package}

/-- The package has a dependency that counts and begins with the name of a library that is
heeded. -/
def UsesLibraries (s : Settings.PropertyTesting) (p : Cargo.Package) : Prop :=
  ∃ d ∈ p.dependencies, (s.devDependenciesOnly = true → d.kind = .dev) ∧
    ∃ library ∈ s.libraries, ¬ Unheeded s.libraries library ∧ StartsLike library d.name

/-- There is nothing to look for, or nowhere to look for it. -/
def NothingToAsk (c : Context) (s : Settings.PropertyTesting) : Prop :=
  c.metadataResult.status ≠ .ok ∨ c.metadataResult.metadata = none ∨ c.packages = [] ∨
    s.libraries = []

theorem mem_countedDependencies {d : Cargo.Dependency} :
    d ∈ countedDependencies s p ↔
      d ∈ p.dependencies ∧ (s.devDependenciesOnly = true → d.kind = .dev) := by
  rw [countedDependencies]
  cases s.devDependenciesOnly with
  | false => simp
  | true => simp [Cargo.Package.dependenciesOfKind]

/-- **A package depends on a library** if the name of a dependency that counts begins with that of
the library. -/
theorem usesLibrary_iff {library : Text} {others : List Text}
    (hlibraries : s.libraries = library :: others) :
    usesLibrary s (.startingWithAny library others) p = true ↔ UsesLibraries s p := by
  rw [usesLibrary, List.any_eq_true, UsesLibraries, hlibraries]
  simp only [mem_countedDependencies, Pattern.startingWithAny_accepts_iff, and_assoc]

/-- Metadata that is of no use names no packages. -/
theorem nothingToAsk_iff : NothingToAsk c s ↔ c.packages = [] ∨ s.libraries = [] := by
  rw [NothingToAsk, Context.packages, Context.metadata?, MetadataResult.usable?]
  by_cases hok : c.metadataResult.status = .ok
  · rw [if_pos hok]
    cases c.metadataResult.metadata with
    | none => simp
    | some m => simp [hok]
  · simp [hok]

/-! ## What the rule returns -/

section Returns

variable {id : Text} (hsettings : c.settings.get id Settings.PropertyTesting.ofJson {} = .valid s)
  (script : Cargo.Script)

include hsettings

theorem usesPropertyTesting_of_nothingToAsk (hnothing : NothingToAsk c s) :
    (usesPropertyTesting id c script).value = .ok .undetermined := by
  rw [usesPropertyTesting, Context.settingsOf_of_valid hsettings, Run.pure_bind]
  cases hpackages : c.packages with
  | nil => exact (c.noteThen_ending _ _ _).1
  | cons p packages =>
    have hlibraries : s.libraries = [] :=
      (nothingToAsk_iff.1 hnothing).resolve_left (hpackages ▸ List.cons_ne_nil _ _)
    rw [hlibraries]
    rfl

/-- Where there are packages and libraries, the first package without a library decides. -/
theorem usesPropertyTesting_of_asked (hask : ¬ NothingToAsk c s) :
    ∃ library others, s.libraries = library :: others ∧
      let missing? := c.packages.find? fun p => !usesLibrary s (.startingWithAny library others) p
      (missing? = none → usesPropertyTesting id c = pure .success) ∧
      ∀ p, missing? = some p → usesPropertyTesting id c = (do
        c.note ("Package " ++ p.name ++ " declares no property based testing library.")
        pure .failure) := by
  rw [nothingToAsk_iff, not_or] at hask
  obtain ⟨library, others, hlibraries⟩ := List.exists_cons_of_ne_nil hask.2
  have hsome : ¬ c.packages.isEmpty = true := fun h => hask.1 (List.isEmpty_iff.1 h)
  refine ⟨library, others, hlibraries, fun hmissing => ?_, fun p hmissing => ?_⟩
  · rw [usesPropertyTesting, Context.settingsOf_of_valid hsettings, Run.pure_bind, if_neg hsome]
    simp only [hlibraries, hmissing]
  · rw [usesPropertyTesting, Context.settingsOf_of_valid hsettings, Run.pure_bind, if_neg hsome]
    simp only [hlibraries, hmissing]

theorem usesPropertyTesting_of_uses (hask : ¬ NothingToAsk c s)
    (hall : ∀ p ∈ c.packages, UsesLibraries s p) :
    (usesPropertyTesting id c script).value = .ok .success := by
  obtain ⟨library, others, hlibraries, hnone, -⟩ := usesPropertyTesting_of_asked hsettings hask
  rw [hnone (List.find?_eq_none.2 fun p hp => ?_)]
  · rfl
  · simp [(usesLibrary_iff hlibraries).2 (hall p hp)]

theorem usesPropertyTesting_of_lacks (hask : ¬ NothingToAsk c s)
    (hlacks : ¬ ∀ p ∈ c.packages, UsesLibraries s p) :
    (usesPropertyTesting id c script).value = .ok .failure := by
  obtain ⟨library, others, hlibraries, -, hsome⟩ := usesPropertyTesting_of_asked hsettings hask
  cases hmissing : c.packages.find? fun p =>
      !usesLibrary s (.startingWithAny library others) p with
  | none =>
    refine absurd (fun p hp => (usesLibrary_iff hlibraries).1 ?_) hlacks
    simpa using List.find?_eq_none.1 hmissing p hp
  | some p =>
    rw [hsome p hmissing]
    exact (c.noteThen_ending _ _ _).1

end Returns

/-! ## More packages, dependencies and libraries -/

/-- The same packages with further dependencies, and settings that ask for no more: further
libraries that make none unheeded, and dependencies of any kind where they sufficed. -/
structure Extends (c : Context) (s : Settings.PropertyTesting) (c' : Context)
    (s' : Settings.PropertyTesting) : Prop where
  dependencies : List.Forall₂ (fun p p' => p.dependencies ⊆ p'.dependencies) c.packages c'.packages
  libraries : s.libraries ⊆ s'.libraries
  heeded : ∀ library ∈ s.libraries, Unheeded s'.libraries library → Unheeded s.libraries library
  kinds : s'.devDependenciesOnly = true → s.devDependenciesOnly = true

/-- The same packages in another order, with their dependencies and the libraries in other
orders. -/
structure Reorders (c : Context) (s : Settings.PropertyTesting) (c' : Context)
    (s' : Settings.PropertyTesting) : Prop where
  packages : ∃ moved, c.packages.Perm moved ∧
    List.Forall₂ (fun p p' => p.dependencies.Perm p'.dependencies) moved c'.packages
  libraries : s.libraries.Perm s'.libraries
  kinds : s.devDependenciesOnly = s'.devDependenciesOnly

/-- A library is found again among more dependencies and libraries. -/
theorem UsesLibraries.mono {p' : Cargo.Package} (h : UsesLibraries s p)
    (hdependencies : p.dependencies ⊆ p'.dependencies) (hlibraries : s.libraries ⊆ s'.libraries)
    (hheeded : ∀ library ∈ s.libraries,
      Unheeded s'.libraries library → Unheeded s.libraries library)
    (hkinds : s'.devDependenciesOnly = true → s.devDependenciesOnly = true) :
    UsesLibraries s' p' := by
  obtain ⟨d, hd, hkind, library, hlibrary, hunheeded, hstarts⟩ := h
  exact ⟨d, hdependencies hd, fun honly => hkind (hkinds honly), library, hlibraries hlibrary,
    fun h => hunheeded (hheeded library hlibrary h), hstarts⟩

/-- The order of dependencies and libraries does not matter to a package. -/
theorem UsesLibraries.perm {p' : Cargo.Package} (h : UsesLibraries s p)
    (hdependencies : p.dependencies.Perm p'.dependencies)
    (hlibraries : s.libraries.Perm s'.libraries)
    (hkinds : s.devDependenciesOnly = s'.devDependenciesOnly) : UsesLibraries s' p' :=
  h.mono hdependencies.subset hlibraries.subset
    (fun library _ => (unheeded_congr (fun _ => hlibraries.mem_iff) library).2)
    (hkinds ▸ id)

/-- What holds of each item of a list holds of those that stand for them. -/
theorem forall_mem_of_forall₂ {α β : Type} {R : α → β → Prop} {P : α → Prop} {Q : β → Prop}
    {as : List α} {bs : List β} (h : List.Forall₂ R as bs) (hkept : ∀ a b, R a b → P a → Q b)
    (hall : ∀ a ∈ as, P a) : ∀ b ∈ bs, Q b := by
  induction h with
  | nil => exact fun _ hmem => absurd hmem List.not_mem_nil
  | @cons a b as bs hab _ ih =>
    obtain ⟨ha, has⟩ := List.forall_mem_cons.1 hall
    exact List.forall_mem_cons.2 ⟨hkept a b hab ha, ih has⟩

theorem Extends.usesLibraries (h : Extends c s c' s')
    (hall : ∀ p ∈ c.packages, UsesLibraries s p) : ∀ p' ∈ c'.packages, UsesLibraries s' p' :=
  forall_mem_of_forall₂ h.dependencies
    (fun _ _ hdependencies huses => huses.mono hdependencies h.libraries h.heeded h.kinds) hall

theorem Extends.not_nothingToAsk (h : Extends c s c' s') (hask : ¬ NothingToAsk c s) :
    ¬ NothingToAsk c' s' := by
  rw [nothingToAsk_iff] at hask ⊢
  rintro (hpackages | hlibraries)
  · have hnil := h.dependencies
    rw [hpackages, List.forall₂_nil_right_iff] at hnil
    exact hask (.inl hnil)
  · exact hask (.inr (List.subset_nil.1 (hlibraries ▸ h.libraries)))

theorem Reorders.usesLibraries_iff (h : Reorders c s c' s') :
    (∀ p ∈ c.packages, UsesLibraries s p) ↔ ∀ p' ∈ c'.packages, UsesLibraries s' p' := by
  obtain ⟨moved, hmoved, hdependencies⟩ := h.packages
  constructor
  · intro hall
    exact forall_mem_of_forall₂ hdependencies
      (fun _ _ hperm huses => huses.perm hperm h.libraries h.kinds)
      fun p hp => hall p (hmoved.mem_iff.2 hp)
  · intro hall p hp
    exact forall_mem_of_forall₂ hdependencies.flip
      (fun _ _ hperm huses => huses.perm hperm.symm h.libraries.symm h.kinds.symm) hall p
      (hmoved.mem_iff.1 hp)

theorem Reorders.nothingToAsk_iff (h : Reorders c s c' s') :
    NothingToAsk c s ↔ NothingToAsk c' s' := by
  obtain ⟨moved, hmoved, hdependencies⟩ := h.packages
  rw [Rules.nothingToAsk_iff, Rules.nothingToAsk_iff]
  refine or_congr ?_ ?_
  · rw [← List.length_eq_zero_iff, ← List.length_eq_zero_iff, hmoved.length_eq,
      hdependencies.length_eq]
  · rw [← List.length_eq_zero_iff, ← List.length_eq_zero_iff, h.libraries.length_eq]

end Rules

open Rules

/-- **The rule about property based tests.**  It is undetermined exactly if there is nothing to ask.
Otherwise it succeeds if every package has a dependency that counts and begins with the name of a
library that is heeded, and fails if one has none.  So other orders change nothing, and further
dependencies, further libraries and further kinds of dependencies keep a success, as long as no
library becomes unheeded. -/
theorem BuiltIn.propertyTesting_decides {c : Context} {s : Settings.PropertyTesting}
    (hsettings : c.settings.get BuiltIn.propertyTesting.id Settings.PropertyTesting.ofJson {} =
      .valid s) (script : Cargo.Script) :
    ∃ outcome, (BuiltIn.propertyTesting.evaluate c script).value = .ok outcome ∧
      (outcome = .undetermined ↔ NothingToAsk c s) ∧
      (outcome = .success ↔ ¬ NothingToAsk c s ∧ ∀ p ∈ c.packages, UsesLibraries s p) ∧
      (outcome = .failure ↔ ¬ NothingToAsk c s ∧ ∃ p ∈ c.packages, ¬ UsesLibraries s p) ∧
      ∀ c' s' script',
        c'.settings.get BuiltIn.propertyTesting.id Settings.PropertyTesting.ofJson {} = .valid s' →
        (Reorders c s c' s' →
          (BuiltIn.propertyTesting.evaluate c' script').value = .ok outcome) ∧
        (Extends c s c' s' → outcome = .success →
          (BuiltIn.propertyTesting.evaluate c' script').value = .ok .success) := by
  have hevaluate : ∀ c, BuiltIn.propertyTesting.evaluate c =
      usesPropertyTesting BuiltIn.propertyTesting.id c := fun _ => rfl
  simp only [hevaluate]
  by_cases hnothing : NothingToAsk c s
  · refine ⟨.undetermined, usesPropertyTesting_of_nothingToAsk hsettings script hnothing,
      iff_of_true rfl hnothing, iff_of_false nofun fun h => h.1 hnothing,
      iff_of_false nofun fun h => h.1 hnothing, fun c' s' script' hsettings' => ⟨?_, nofun⟩⟩
    intro hreorders
    exact usesPropertyTesting_of_nothingToAsk hsettings' script'
      (hreorders.nothingToAsk_iff.1 hnothing)
  by_cases hall : ∀ p ∈ c.packages, UsesLibraries s p
  · refine ⟨.success, usesPropertyTesting_of_uses hsettings script hnothing hall,
      iff_of_false nofun hnothing, iff_of_true rfl ⟨hnothing, hall⟩,
      iff_of_false nofun fun ⟨_, p, hp, hlacks⟩ => hlacks (hall p hp),
      fun c' s' script' hsettings' => ⟨fun hreorders => ?_, fun hextends _ => ?_⟩⟩
    · exact usesPropertyTesting_of_uses hsettings' script'
        (hreorders.nothingToAsk_iff.not.1 hnothing) (hreorders.usesLibraries_iff.1 hall)
    · exact usesPropertyTesting_of_uses hsettings' script' (hextends.not_nothingToAsk hnothing)
        (hextends.usesLibraries hall)
  · refine ⟨.failure, usesPropertyTesting_of_lacks hsettings script hnothing hall,
      iff_of_false nofun hnothing, iff_of_false nofun fun h => hall h.2,
      iff_of_true rfl ⟨hnothing, by simpa using hall⟩,
      fun c' s' script' hsettings' => ⟨fun hreorders => ?_, nofun⟩⟩
    exact usesPropertyTesting_of_lacks hsettings' script'
      (hreorders.nothingToAsk_iff.not.1 hnothing) (hreorders.usesLibraries_iff.not.1 hall)

/-- A crate of macros, whose name is written with capitals, counts for one of the packages; for the
other one a further library and dependencies of any kind keep the success. -/
theorem BuiltIn.propertyTesting_decides_extended :
    let derive : Cargo.Package :=
      { name := "a", dependencies := [{ name := "proptest-derive", kind := .dev }] }
    let macros : Cargo.Package := {
      name := "b"
      dependencies := [{ name := "serde" }, { name := "QuickCheck_macros", kind := .dev }] }
    let c : Context := {
      manifest := .ofText "/p/Cargo.toml"
      metadataResult := .ofMetadata { packages := [derive, macros] } }
    let s' : Settings.PropertyTesting := {
      libraries := ["a+b", "suppositions", "quickcheck", "proptest"]
      devDependenciesOnly := false }
    let c' : Context := { c with settings := .ofList [(BuiltIn.propertyTesting.id,
      [("libraries", .arr [.str "a+b", .str "suppositions", .str "quickcheck", .str "proptest"]),
        ("dev_dependencies_only", .bool false)])] }
    c.settings.get BuiltIn.propertyTesting.id Settings.PropertyTesting.ofJson {} = .valid {} ∧
      c'.settings.get BuiltIn.propertyTesting.id Settings.PropertyTesting.ofJson {} = .valid s' ∧
      Extends c {} c' s' ∧
      (BuiltIn.propertyTesting.evaluate c []).value = .ok .success ∧
      (BuiltIn.propertyTesting.evaluate c' []).value = .ok .success := by
  intro derive macros c s' c'
  have hsettings : c.settings.get BuiltIn.propertyTesting.id Settings.PropertyTesting.ofJson {} =
      .valid {} := rfl
  have hsettings' : c'.settings.get BuiltIn.propertyTesting.id Settings.PropertyTesting.ofJson {} =
      .valid s' := rfl
  have huses : ∀ p ∈ c.packages, UsesLibraries {} p := fun p hp =>
    (usesLibrary_iff rfl).1 ((by decide +kernel : ∀ p ∈ c.packages,
      usesLibrary {} (.startingWithAny "proptest" ["quickcheck", "suppositions"]) p = true) p hp)
  have hask : ¬ NothingToAsk c {} := nothingToAsk_iff.not.2 (by decide)
  have hextends : Extends c {} c' s' := {
    dependencies := List.forall₂_same.2 fun _ _ => List.Subset.refl _
    libraries := by decide
    heeded := fun library hlibrary hunheeded => absurd hunheeded (not_unheeded_of_near
      ((by decide +kernel : ∀ library ∈ ({} : Settings.PropertyTesting).libraries,
        ∀ letter ∈ library, ¬ IsFarCapital letter) library hlibrary))
    kinds := nofun }
  obtain ⟨outcome, hvalue, -, hsuccess, -, hother⟩ := BuiltIn.propertyTesting_decides hsettings []
  obtain rfl := hsuccess.2 ⟨hask, huses⟩
  exact ⟨hsettings, hsettings', hextends, hvalue, (hother c' s' [] hsettings').2 hextends rfl⟩

/-- **A library too many.**  The dependency has the very name of the first library.  It counts as
long as that is the only library; with a second one of one letter it does not. -/
theorem BuiltIn.propertyTesting_unheeded :
    let p : Cargo.Package := { name := "k", dependencies := [{ name := "𐐀", kind := .dev }] }
    let c (libraries : List Text) : Context := {
      manifest := .ofText "/p/Cargo.toml"
      metadataResult := .ofMetadata { packages := [p] }
      settings := .ofList
        [(BuiltIn.propertyTesting.id, [("libraries", .arr (libraries.map .str))])] }
    (c ["𐐀", "a"]).settings.get BuiltIn.propertyTesting.id Settings.PropertyTesting.ofJson {} =
        .valid { libraries := ["𐐀", "a"] } ∧
      StartsLike "𐐀" "𐐀" ∧
      (BuiltIn.propertyTesting.evaluate (c ["𐐀"]) []).value = .ok .success ∧
      (BuiltIn.propertyTesting.evaluate (c ["𐐀", "a"]) []).value = .ok .failure :=
  ⟨rfl, Pattern.starting_accepts_iff.1 (by decide +kernel), by decide +kernel, by decide +kernel⟩

end ProjectAudit
