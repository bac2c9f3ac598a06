import ProjectAudit.Proofs.Run.Faulting
import Mathlib.Data.List.Basic

/-!
# Calls that can be handed over

A process is started with texts in the form of bytes, each of which a NUL ends: its arguments, and
the names and the values of its variables.  A call that can be handed over to the system is one all
of whose texts have such a form, with no name that an equals sign would end too early.  The texts
are checked in three rounds, but which of them is found first to have no form is of account only
for the wording of the fault.

A call that cannot be handed over ends the run of its caller.  Of any other call its caller gets
what the tool replied.

* `Cargo.IsPassable`: the texts that a process can be given.
* `Cargo.Toolchain.Passes`: the calls that can be handed over.
* `Cargo.Toolchain.handed_eq_ok_iff`: a call is checked for just that.
* `Cargo.value_attemptCall_of_passes`, `Cargo.value_attemptCall_of_not_passes`: what a caller gets.
-/

namespace ProjectAudit.Cargo

/-- A text that a process can be given. -/
structure IsPassable (t : Text) : Prop where
  encodes : ∃ bytes, encodeName t = .ok bytes
  nul_notMem : CodePoint.char '\x00' ∉ t

/-- A call with the given arguments can be handed over, and with it the variables of its
environment, each with the value that counts. -/
structure Toolchain.Passes (t : Toolchain) (h : Host) (settings : List (Text × Text))
    (arguments : List Text) : Prop where
  argument : ∀ a ∈ arguments, IsPassable a
  environment : ∀ name value, (t.hostOfCall h settings).environmentValue? name = some value →
    IsPassable name ∧ IsPassable value ∧ CodePoint.char '=' ∉ name

/-! ## The checks -/

theorem checkEncoding_eq_ok_iff {t : Text} :
    checkEncoding t = .ok () ↔ ∃ bytes, encodeName t = .ok bytes := by
  rw [checkEncoding]
  cases encodeName t <;> simp

theorem checkNul_eq_ok_iff {t : Text} : checkNul t = .ok () ↔ CodePoint.char '\x00' ∉ t := by
  rw [checkNul]
  simp

theorem checkArgument_eq_ok_iff {t : Text} : checkArgument t = .ok () ↔ IsPassable t := by
  rw [checkArgument, check_then_eq_ok_iff, checkEncoding_eq_ok_iff, checkNul_eq_ok_iff]
  exact ⟨fun ⟨hencodes, hnul⟩ => ⟨hencodes, hnul⟩, fun h => ⟨h.encodes, h.nul_notMem⟩⟩

theorem checkVariable_eq_ok_iff {name value : Text} :
    checkVariable name value = .ok () ↔
      (∃ bytes, encodeName name = .ok bytes) ∧ CodePoint.char '=' ∉ name ∧
        ∃ bytes, encodeName value = .ok bytes := by
  rw [checkVariable, check_then_eq_ok_iff, checkEncoding_eq_ok_iff]
  by_cases hsign : CodePoint.char '=' ∈ name
  · simp [hsign]
  · simp [hsign, checkEncoding_eq_ok_iff]

/-- What is checked in three rounds. -/
theorem handOver_eq_ok_iff {entries : List (Text × Text)} {arguments : List Text} :
    handOver entries arguments = .ok () ↔
      (∀ a ∈ arguments, IsPassable a) ∧
        ∀ v ∈ entries, IsPassable v.1 ∧ IsPassable v.2 ∧ CodePoint.char '=' ∉ v.1 := by
  have hnul (v : Text × Text) : (do checkNul v.1; checkNul v.2 : Except StartFault Unit) = .ok () ↔
      CodePoint.char '\x00' ∉ v.1 ∧ CodePoint.char '\x00' ∉ v.2 := by
    rw [check_then_eq_ok_iff, checkNul_eq_ok_iff, checkNul_eq_ok_iff]
  simp only [handOver, check_then_eq_ok_iff, forM_eq_ok_iff, checkArgument_eq_ok_iff,
    checkVariable_eq_ok_iff, hnul]
  constructor
  · rintro ⟨hentries, harguments, hends⟩
    refine ⟨harguments, fun v hv => ?_⟩
    obtain ⟨hname, hsign, hvalue⟩ := hentries v hv
    exact ⟨⟨hname, (hends v hv).1⟩, ⟨hvalue, (hends v hv).2⟩, hsign⟩
  · rintro ⟨harguments, hentries⟩
    refine ⟨fun v hv => ?_, harguments, fun v hv => ?_⟩
    · obtain ⟨hname, hvalue, hsign⟩ := hentries v hv
      exact ⟨hname.encodes, hsign, hvalue.encodes⟩
    · exact ⟨(hentries v hv).1.nul_notMem, (hentries v hv).2.1.nul_notMem⟩

namespace Toolchain

variable {t : Toolchain} {h : Host} {settings : List (Text × Text)}

/-- The variables that are handed over are those of the environment, with their values. -/
theorem mem_entries_iff {name value : Text} :
    (name, value) ∈ t.entries h settings ↔
      (t.hostOfCall h settings).environmentValue? name = some value := by
  have hmem (v : Text × Text) :
      v ∈ h.environment ++ t.additions ++ settings ↔ v ∈ t.environment h settings := by
    simp only [environment, List.mem_append]
    tauto
  simp only [entries, List.mem_map, hmem, Prod.mk.injEq]
  constructor
  · rintro ⟨v, hv, rfl, rfl⟩
    have hsome : ((t.environment h settings).find? fun w => w.1 == v.1).isSome :=
      List.find?_isSome.2 ⟨v, hv, beq_self_eq_true _⟩
    obtain ⟨w, hw⟩ := Option.isSome_iff_exists.1 hsome
    simp [Host.environmentValue?, hostOfCall, hw]
  · intro hvalue
    obtain ⟨v, hv, rfl⟩ := Option.map_eq_some_iff.1 hvalue
    have hname := List.find?_some hv
    simp only [beq_iff_eq] at hname
    subst hname
    refine ⟨v, List.mem_of_find?_eq_some hv, rfl, ?_⟩
    rw [hvalue]
    rfl

variable {sub : Text} {manifest : Path} {more : List Text}

/-- **A call is handed over exactly if all its texts can be.** -/
theorem handed_eq_ok_iff :
    t.handed h sub manifest more settings = .ok () ↔
      t.Passes h settings (t.arguments sub manifest more) := by
  rw [handed, handOver_eq_ok_iff]
  constructor
  · rintro ⟨harguments, hentries⟩
    exact ⟨harguments, fun name value hvalue => hentries _ (mem_entries_iff.2 hvalue)⟩
  · rintro ⟨harguments, henvironment⟩
    exact ⟨harguments, fun v hv => henvironment _ _ (mem_entries_iff.1 hv)⟩

theorem exists_handed_eq_error (hfails : ¬ t.Passes h settings (t.arguments sub manifest more)) :
    ∃ fault, t.handed h sub manifest more settings = .error fault := by
  rcases hhanded : t.handed h sub manifest more settings with fault | ⟨⟩
  · exact ⟨fault, rfl⟩
  · exact absurd (handed_eq_ok_iff.1 hhanded) hfails

end Toolchain

/-! ## What a caller gets -/

variable {ε : Type} {unexpected : StartFault → ε} {t : Toolchain} {h : Host} {sub : Text}
  {manifest : Path} {more : List Text} {settings : List (Text × Text)} {s : Script}

theorem value_attemptCall_of_passes
    (hpasses : t.Passes h settings (t.arguments sub manifest more)) :
    (attemptCall unexpected (t.call h sub manifest more settings) s).value =
      .ok (Toolchain.replied (t.arguments sub manifest more) (s.reply sub)) := by
  rw [attemptCall_apply, Toolchain.handed_eq_ok_iff.2 hpasses]
  rfl

theorem value_attemptCall_of_not_passes
    (hfails : ¬ t.Passes h settings (t.arguments sub manifest more)) :
    ∃ fault, (attemptCall unexpected (t.call h sub manifest more settings) s).value =
      .error (unexpected fault) := by
  obtain ⟨fault, hfault⟩ := Toolchain.exists_handed_eq_error hfails
  exact ⟨fault, by rw [attemptCall_apply, hfault]; rfl⟩

end ProjectAudit.Cargo
