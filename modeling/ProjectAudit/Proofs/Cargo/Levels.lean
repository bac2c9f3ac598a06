import ProjectAudit.Proofs.Cargo.DiagnosticLines
import ProjectAudit.Proofs.Text.Caseless

/-!
# Levels of diagnostics

A message of the compiler counts if its level is the word `warning` or the word `error`, and a line
of standard error if it begins with one of the two, in small letters or capitals.  The level of such
a line is what it begins with, in lower case.  It should be one of the two words again.

It is not always, for the beginning of the line is compared without regard to case, and two code
points are the same as `i` so but do not become an `i` in lower case.  A warning that is spelled
with one of them has a level of its own, and no other diagnostic has.

* `Cargo.Diagnostic.lower_of_opensWith`: the levels that a line may have.
* `Cargo.Diagnostic.isCanonical_iff_of_opensWith`: when it has one of the two words.
* `Cargo.Diagnostic.collect_levels`: the levels of all diagnostics.
-/

namespace ProjectAudit

namespace Cargo.Diagnostic

/-- The level is one of the two words. -/
def IsCanonical (d : Diagnostic) : Prop :=
  d.level = "warning" ∨ d.level = "error"

instance (d : Diagnostic) : Decidable (IsCanonical d) :=
  inferInstanceAs (Decidable (_ ∨ _))

theorem isWordLetter_of_level {level : Text} (hlevel : level = "warning" ∨ level = "error") :
    ∀ w ∈ level, Text.IsWordLetter w := by
  rcases hlevel with rfl | rfl <;> decide

/-- The level of a line that begins with the word of one. -/
theorem lower_of_opensWith {line word : Text} (h : OpensWith line word) :
    Text.lower word ∈ [("warning" : Text), "warni\u0307ng", "warn\u0131ng", "error"] := by
  obtain ⟨hlevel, hword, -, -⟩ := h
  have hform := Text.lower_mem_lowerFormsOf (isWordLetter_of_level hlevel) hword
  rcases hlevel with rfl | rfl
  · exact List.mem_append_left [_] hform
  · exact List.mem_append_right [_, _, _] hform

/-- It is one of the two words exactly if it is spelled without a foreign `i`. -/
theorem isCanonical_iff_of_opensWith {line word message : Text} (h : OpensWith line word) :
    IsCanonical ⟨Text.lower word, message⟩ ↔ ∀ c ∈ word, ¬ Text.IsForeignI c := by
  obtain ⟨hlevel, hword, -, -⟩ := h
  rw [← Text.lower_eq_iff_of_sameLetters (isWordLetter_of_level hlevel) hword]
  have hform := Text.lower_mem_lowerFormsOf (isWordLetter_of_level hlevel) hword
  constructor
  · -- neither word is among what becomes of the other one
    intro hcanonical
    rcases hlevel with rfl | rfl
    · refine hcanonical.resolve_right fun herror => ?_
      change Text.lower word = "error" at herror
      rw [herror] at hform
      exact absurd hform (by decide)
    · refine hcanonical.resolve_left fun hwarning => ?_
      change Text.lower word = "warning" at hwarning
      rw [hwarning] at hform
      exact absurd hform (by decide)
  · intro hown
    exact hown ▸ hlevel

/-- The diagnostics of standard output have one of the two words. -/
theorem isCanonical_of_mem_ofOutput {stdout : Text} {found : List Diagnostic} {d : Diagnostic}
    (h : ofOutput stdout = .ok found) (hd : d ∈ found) : IsCanonical d := by
  obtain ⟨read, hread, rfl⟩ := map_eq_ok.1 h
  obtain ⟨_, hmem, rfl⟩ := List.mem_filterMap.1 hd
  obtain ⟨line, -, hline⟩ := exists_of_mem_of_mapM_eq_ok hread hmem
  obtain ⟨-, message, -, hcarries⟩ := ofOutputLine_eq_some_iff.1 hline
  obtain ⟨-, -, -, hknown⟩ := hcarries
  exact hknown

/-- The diagnostics of standard error are those that its lines announce. -/
theorem mem_ofErrors_iff {stderr : Text} {d : Diagnostic} :
    d ∈ ofErrors stderr ↔ ∃ line ∈ Text.splitLines stderr, Announces line d := by
  rw [ofErrors, List.mem_filterMap]
  exact exists_congr fun line => and_congr_right fun _ => ofErrorLine?_eq_some_iff

/-- A line announces a diagnostic, and begins with a level that is spelled with a foreign `i`. -/
def AnnouncesOddly (line : Text) (d : Diagnostic) : Prop :=
  ∃ word, OpensWith (Text.trim line) word ∧ (∃ c ∈ word, Text.IsForeignI c) ∧
    d = ⟨Text.lower word, Text.trim line⟩

/-- The level of such a diagnostic reads one of two ways. -/
theorem level_of_announcesOddly {line : Text} {d : Diagnostic} (h : AnnouncesOddly line d) :
    d.level = "warni\u0307ng" ∨ d.level = "warn\u0131ng" := by
  obtain ⟨word, hopens, ⟨c, hc, hforeign⟩, rfl⟩ := h
  have hother : ¬ IsCanonical ⟨Text.lower word, Text.trim line⟩ := fun hcanonical =>
    (isCanonical_iff_of_opensWith hopens).1 hcanonical c hc hforeign
  have hlevel := lower_of_opensWith hopens
  simp only [List.mem_cons, List.not_mem_nil, or_false] at hlevel
  rcases hlevel with hwarning | hdotted | hdotless | herror
  · exact absurd (.inl hwarning) hother
  · exact .inl hdotted
  · exact .inr hdotless
  · exact absurd (.inr herror) hother

theorem isCanonical_or_announcesOddly {line : Text} {d : Diagnostic} (h : Announces line d) :
    IsCanonical d ∨ AnnouncesOddly line d := by
  obtain ⟨word, hopens, rfl⟩ := h
  by_cases hforeign : ∃ c ∈ word, Text.IsForeignI c
  · exact .inr ⟨word, hopens, hforeign, rfl⟩
  · exact .inl ((isCanonical_iff_of_opensWith hopens).2 fun c hc hc' => hforeign ⟨c, hc, hc'⟩)

/-- **The levels of diagnostics.**

The level of a diagnostic is `warning` or `error`, unless a line of standard error spells it with a
foreign `i`; then it reads one of two other ways.  So all levels are one of the two words exactly if
no line of standard error begins with a level that is spelled so, and in particular if there is no
foreign `i` on standard error. -/
theorem collect_levels {stdout stderr : Text} {found : List Diagnostic}
    (h : collect stdout stderr = .ok found) :
    (∀ d ∈ found, IsCanonical d ∨
      (d.level = "warni\u0307ng" ∨ d.level = "warn\u0131ng") ∧
        ∃ line ∈ Text.splitLines stderr, AnnouncesOddly line d) ∧
    ((∀ d ∈ found, IsCanonical d) ↔
      ∀ line ∈ Text.splitLines stderr, ∀ d, ¬ AnnouncesOddly line d) ∧
    ((∀ c ∈ stderr, ¬ Text.IsForeignI c) → ∀ d ∈ found, IsCanonical d) := by
  obtain ⟨output, houtput, rfl⟩ := map_eq_ok.1 h
  have hlevels : ∀ d ∈ output ++ ofErrors stderr, IsCanonical d ∨
      ∃ line ∈ Text.splitLines stderr, AnnouncesOddly line d := by
    intro d hd
    rcases List.mem_append.1 hd with hd | hd
    · exact .inl (isCanonical_of_mem_ofOutput houtput hd)
    · obtain ⟨line, hline, hannounces⟩ := mem_ofErrors_iff.1 hd
      exact (isCanonical_or_announcesOddly hannounces).imp_right fun hodd => ⟨line, hline, hodd⟩
  have hall : (∀ d ∈ output ++ ofErrors stderr, IsCanonical d) ↔
      ∀ line ∈ Text.splitLines stderr, ∀ d, ¬ AnnouncesOddly line d := by
    constructor
    · rintro hcanonical line hline d ⟨word, hopens, ⟨c, hc, hforeign⟩, rfl⟩
      have hd := mem_ofErrors_iff.2 ⟨line, hline, word, hopens, rfl⟩
      exact (isCanonical_iff_of_opensWith hopens).1 (hcanonical _ (List.mem_append_right _ hd)) c hc
        hforeign
    · intro hnone d hd
      refine (hlevels d hd).resolve_right ?_
      rintro ⟨line, hline, hodd⟩
      exact hnone line hline d hodd
  refine ⟨fun d hd => (hlevels d hd).imp_right ?_, hall, fun hplain => hall.2 ?_⟩
  · rintro ⟨line, hline, hodd⟩
    exact ⟨level_of_announcesOddly hodd, line, hline, hodd⟩
  · rintro line hline d ⟨word, ⟨-, -, -, htext⟩, ⟨c, hc, hforeign⟩, -⟩
    have hstands : c ∈ Text.trim line := htext ▸ List.mem_append_left _ hc
    exact hplain c (Text.mem_of_mem_splitLines hline (Text.mem_of_mem_trim hstands)) hforeign

/-- A warning in capitals, with the capital `I` of ASCII. -/
theorem collect_levels_capitals :
    collect [] "WARNING: unused\n" = .ok [⟨"warning", "WARNING: unused"⟩] ∧
      ∀ d ∈ [(⟨"warning", "WARNING: unused"⟩ : Diagnostic)], IsCanonical d := by
  have hfound : collect [] "WARNING: unused\n" = .ok [⟨"warning", "WARNING: unused"⟩] := by
    decide +kernel
  exact ⟨hfound, (collect_levels hfound).2.2 (by decide)⟩

/-- A warning with the dotless small `i`, which has a level of its own. -/
theorem collect_dotless :
    collect [] "warn\u0131ng: unused\n" = .ok [⟨"warn\u0131ng", "warn\u0131ng: unused"⟩] ∧
      ¬ IsCanonical ⟨"warn\u0131ng", "warn\u0131ng: unused"⟩ :=
  ⟨by decide +kernel, by decide⟩

end Cargo.Diagnostic

end ProjectAudit
