import ProjectAudit.Text.Scan
import Mathlib.Data.List.Forall2
import Mathlib.Data.List.TakeDrop
import Mathlib.Data.List.TakeWhile

/-!
# What a scanner takes

A scanner takes a start of the text and leaves the rest, so the text is the one in front of the
other.  A longest start of a class takes exactly what stands in front of the first code point
outside of the class, and a word is taken in any mixture of small letters and capitals.

* `Text.spanSome?_eq_some`, `Text.spanSome?_append`: the longest start of a class.
* `Text.afterCaseless?_eq_some_iff`: a word without regard to case.
-/

namespace ProjectAudit.Text

variable {p : CodePoint → Bool} {front rest s : Text}

theorem spanSome?_eq_some (h : spanSome? p s = some (front, rest)) :
    front ≠ [] ∧ (∀ c ∈ front, p c = true) ∧ s = front ++ rest := by
  rw [spanSome?, List.span_eq_takeWhile_dropWhile] at h
  dsimp only at h
  split at h
  · cases h
  · rename_i hne
    obtain ⟨rfl, rfl⟩ := Prod.mk.inj (Option.some.inj h)
    refine ⟨?_, fun c hc => List.mem_takeWhile_imp hc, List.takeWhile_append_dropWhile.symm⟩
    simpa using hne

theorem spanSome?_append (hne : front ≠ []) (hfront : ∀ c ∈ front, p c = true)
    (hrest : ∀ c ∈ rest.head?, p c = false) :
    spanSome? p (front ++ rest) = some (front, rest) := by
  have hspan : (front ++ rest).span p = (front, rest) := by
    rw [List.span_eq_takeWhile_dropWhile, List.takeWhile_append_of_pos hfront,
      List.dropWhile_append_of_pos hfront]
    cases rest with
    | nil => simp
    | cons c r =>
      have hc : ¬ p c = true := by simp [hrest c rfl]
      rw [List.takeWhile_cons_of_neg hc, List.dropWhile_cons_of_neg hc, List.append_nil]
  rw [spanSome?, hspan]
  simp [hne]

/-- The start that is taken is the word without regard to case. -/
theorem afterCaseless?_eq_some_iff {word s m rest : Text} :
    afterCaseless? word s = some (m, rest) ↔
      s = m ++ rest ∧ List.Forall₂ (fun w c => sameLetter w c = true) word m := by
  induction word generalizing s m with
  | nil =>
    rw [afterCaseless?, List.forall₂_nil_left_iff, Option.some.injEq, Prod.mk.injEq]
    constructor
    · rintro ⟨rfl, rfl⟩
      exact ⟨rfl, rfl⟩
    · rintro ⟨rfl, rfl⟩
      exact ⟨rfl, rfl⟩
  | cons w ws ih =>
    constructor
    · intro h
      cases s with
      | nil => cases h
      | cons c r =>
        rw [afterCaseless?] at h
        split at h
        · rename_i hc
          obtain ⟨⟨m', rest'⟩, htaken, hpair⟩ := Option.map_eq_some_iff.1 h
          obtain ⟨rfl, rfl⟩ := Prod.mk.inj hpair
          obtain ⟨rfl, hword⟩ := ih.1 htaken
          exact ⟨rfl, .cons hc hword⟩
        · cases h
    · rintro ⟨rfl, hword⟩
      cases hword with
      | cons hc hword =>
        rw [List.cons_append, afterCaseless?, if_pos hc, ih.2 ⟨rfl, hword⟩]
        rfl

end ProjectAudit.Text
