import ProjectAudit.Proofs.Json.Spelling
import ProjectAudit.Proofs.Json.Strings
import ProjectAudit.Proofs.Run.Faulting
import Mathlib.Data.List.TakeWhile

/-!
# Inside and outside of strings

Whether a place in a JSON text is inside or outside of a string is decided by the quotes before it.
`Stands` says so without any word on values: it leads from the side on which a text begins to the
side on which it ends, and a text that is cut somewhere leads to and from the side of the cut.

What matters of such a text is how little can stand outside: blanks, punctuation, numbers and six
words, none of which holds an `o`.  Inside may stand anything, but quotes and backslashes only
behind a backslash.  So the reader, put down inside of a string, takes the outside for the inside;
it may still come to a value, but no field of it has a name with an `o`.

* `Json.Stands`: from one side of the quotes to another.
* `Json.Spells.stands`: a spelling leads from the outside to the outside.
* `Json.value_stands`: the reader does not change sides.
-/

namespace ProjectAudit

namespace Json

/-- A code point of ASCII that is neither a blank nor a control character. -/
def IsGraphic (c : CodePoint) : Prop :=
  33 ≤ c.toNat ∧ c.toNat < 127

instance (c : CodePoint) : Decidable (IsGraphic c) :=
  inferInstanceAs (Decidable (_ ∧ _))

/-- A code point that may stand outside of strings. -/
def IsToken (c : CodePoint) : Prop :=
  (isGap c = true ∨ IsGraphic c) ∧ c ≠ '"' ∧ c ≠ '\\' ∧ c ≠ 'o'

instance (c : CodePoint) : Decidable (IsToken c) :=
  inferInstanceAs (Decidable (_ ∧ _))

theorem IsToken.toNat_lt {c : CodePoint} (h : IsToken c) : c.toNat < 127 := by
  obtain ⟨hgap | hgraphic, -⟩ := h
  · simp only [isGap, Bool.or_eq_true, beq_iff_eq] at hgap
    rcases hgap with ((rfl | rfl) | rfl) | rfl <;> decide
  · exact hgraphic.2

/-- The text leads from one side of the quotes to another, where `true` is the inside of a string.
Behind a backslash stands the letter of an escape. -/
inductive Stands : Bool → Bool → Text → Prop
  | nil (q : Bool) : Stands q q []
  | quote {q q' : Bool} {t : Text} (h : Stands (!q) q' t) : Stands q q' (.char '"' :: t)
  | token {q' : Bool} {c : CodePoint} {t : Text} (hc : IsToken c) (h : Stands false q' t) :
    Stands false q' (c :: t)
  | plain {q' : Bool} {c : CodePoint} {t : Text} (hquote : c ≠ '"') (hslash : c ≠ '\\')
    (hcontrol : 32 ≤ c.toNat) (h : Stands true q' t) : Stands true q' (c :: t)
  | escape {q' : Bool} {e : CodePoint} {t : Text} (he : IsGraphic e)
    (h : Stands true q' t) : Stands true q' (.char '\\' :: e :: t)

variable {q q' m : Bool} {a b t : Text} {c : CodePoint}

namespace Stands

theorem append (ha : Stands q m a) (hb : Stands m q' b) : Stands q q' (a ++ b) := by
  induction ha with
  | nil => exact hb
  | quote _ ih => exact .quote (ih hb)
  | token hc _ ih => exact .token hc (ih hb)
  | plain hquote hslash hcontrol _ ih => exact .plain hquote hslash hcontrol (ih hb)
  | escape he _ ih => exact .escape he (ih hb)

/-- Quotes aside, a code point that is no backslash stays on its side. -/
theorem tail (hquote : c ≠ '"') (hslash : c ≠ '\\') (h : Stands q q' (c :: t)) : Stands q q' t := by
  cases h with
  | quote => exact absurd rfl hquote
  | token hc h => exact h
  | plain _ _ _ h => exact h
  | escape => exact absurd rfl hslash

theorem tail_quote (h : Stands q q' (.char '"' :: t)) : Stands (!q) q' t := by
  cases h with
  | quote h => exact h
  | token hc => exact absurd rfl hc.2.1
  | plain hquote => exact absurd rfl hquote

theorem drop (ha : ∀ c ∈ a, c ≠ '"' ∧ c ≠ '\\') (h : Stands q q' (a ++ b)) : Stands q q' b := by
  induction a with
  | nil => exact h
  | cons c a ih =>
    obtain ⟨⟨hquote, hslash⟩, ha⟩ := List.forall_mem_cons.1 ha
    exact ih ha (h.tail hquote hslash)

/-- A text has one way to lead from a side. -/
theorem right (ha : Stands q m a) (h : Stands q q' (a ++ b)) : Stands m q' b := by
  induction ha with
  | nil => exact h
  | quote _ ih => exact ih h.tail_quote
  | token hc _ ih => exact ih (h.tail hc.2.1 hc.2.2.1)
  | plain hquote hslash _ _ ih => exact ih (h.tail hquote hslash)
  | escape he _ ih =>
    cases h with
    | plain _ hslash => exact absurd rfl hslash
    | escape _ h => exact ih h

/-- A code point beyond ASCII stands inside of a string, and does not end it. -/
theorem split (hc : 127 ≤ c.toNat) :
    ∀ {q : Bool} (a : Text), Stands q q' (a ++ c :: b) → Stands q true a ∧ Stands true q' b
  | _, [], h => by
    rw [List.nil_append] at h
    cases h with
    | quote => exact absurd hc (by decide)
    | token hd => exact absurd hd.toNat_lt (Nat.not_lt.2 hc)
    | plain _ _ _ h => exact ⟨.nil true, h⟩
    | escape => exact absurd hc (by decide)
  | _, [d], h => by
    rw [List.singleton_append] at h
    cases h with
    | quote h => exact (split hc [] h).imp_left .quote
    | token hd h => exact (split hc [] h).imp_left (.token hd)
    | plain hquote hslash hcontrol h =>
      exact (split hc [] h).imp_left (.plain hquote hslash hcontrol)
    | escape he => exact absurd he.2 (Nat.not_lt.2 hc)
  | _, d :: e :: a, h => by
    rw [List.cons_append, List.cons_append] at h
    cases h with
    | quote h => exact (split hc (e :: a) h).imp_left .quote
    | token hd h => exact (split hc (e :: a) h).imp_left (.token hd)
    | plain hquote hslash hcontrol h =>
      exact (split hc (e :: a) h).imp_left (.plain hquote hslash hcontrol)
    | escape he h => exact (split hc a h).imp_left (.escape he)

theorem eq_of_not_graphic (hb : ∀ c ∈ b, ¬ IsGraphic c) (h : Stands q q' b) : q = q' := by
  have hplain : ∀ c ∈ b, c ≠ '"' ∧ c ≠ '\\' := fun c hc =>
    ⟨by rintro rfl; exact hb _ hc (by decide), by rintro rfl; exact hb _ hc (by decide)⟩
  rw [← List.append_nil b] at h
  cases drop hplain h with
  | nil => rfl

/-- Code points that are not graphic can be left away at the end: none of them is a quote, and none
belongs to an escape. -/
theorem left (hb : ∀ c ∈ b, ¬ IsGraphic c) :
    ∀ {q : Bool} (a : Text), Stands q q' (a ++ b) → Stands q q' a
  | _, [], h => by
    rw [List.nil_append] at h
    rw [h.eq_of_not_graphic hb]
    exact .nil _
  | _, [d], h => by
    rw [List.singleton_append] at h
    cases h with
    | quote h => exact .quote (left hb [] h)
    | token hd h => exact .token hd (left hb [] h)
    | plain hquote hslash hcontrol h => exact .plain hquote hslash hcontrol (left hb [] h)
    | escape he => exact absurd he (hb _ List.mem_cons_self)
  | _, d :: e :: a, h => by
    rw [List.cons_append, List.cons_append] at h
    cases h with
    | quote h => exact .quote (left hb (e :: a) h)
    | token hd h => exact .token hd (left hb (e :: a) h)
    | plain hquote hslash hcontrol h => exact .plain hquote hslash hcontrol (left hb (e :: a) h)
    | escape he h => exact .escape he (left hb a h)

end Stands

/-! ## Strings -/

theorem exists_of_map_consRead {x r cs : Text} {p : CodePoint}
    (h : (stringRest x).map (consRead p) = .ok (cs, r)) :
    ∃ read, cs = p :: read ∧ stringRest x = .ok (read, r) := by
  cases hread : stringRest x with
  | error stop =>
    rw [hread] at h
    cases h
  | ok found =>
    rw [hread] at h
    obtain ⟨rfl, rfl⟩ := Prod.mk.inj (Except.ok.inj h)
    exact ⟨_, rfl, rfl⟩

theorem isGraphic_of_hexValue? {n : Nat} (h : hexValue? c = some n) :
    IsGraphic c ∧ c ≠ '"' ∧ c ≠ '\\' := by
  refine ⟨?_, (by rintro rfl; cases h), (by rintro rfl; cases h)⟩
  rw [hexValue?, CodePoint.isDigit] at h
  simp only [Bool.and_eq_true, decide_eq_true_eq] at h
  rw [IsGraphic]
  split at h
  · omega
  · split at h
    · omega
    · split at h
      · omega
      · cases h

theorem isGraphic_of_escaped? {e : CodePoint} (h : escaped? e = some c) : IsGraphic e := by
  by_contra hno
  have hne : ∀ d : CodePoint, IsGraphic d → e ≠ d := fun d hd heq => hno (heq ▸ hd)
  simp [escaped?, hne '"' (by decide), hne '\\' (by decide), hne '/' (by decide),
    hne 'b' (by decide), hne 'f' (by decide), hne 'n' (by decide), hne 'r' (by decide),
    hne 't' (by decide)] at h

/-- The escape of a code unit stands inside. -/
theorem Stands.unit {a b c d : CodePoint} {n : Nat} (h : unit? a b c d = some n)
    (ht : Stands true q' t) :
    Stands true q' (.char '\\' :: .char 'u' :: a :: b :: c :: d :: t) := by
  have hplain : ∀ {c : CodePoint} {n : Nat} {t : Text}, hexValue? c = some n → Stands true q' t →
      Stands true q' (c :: t) := by
    intro c n t hc ht
    obtain ⟨hgraphic, hquote, hslash⟩ := isGraphic_of_hexValue? hc
    exact .plain hquote hslash (by rw [IsGraphic] at hgraphic; omega) ht
  simp only [unit?, Option.bind_eq_bind, Option.bind_eq_some_iff, Option.pure_def] at h
  obtain ⟨_, ha, _, hb, _, hc, _, hd, -⟩ := h
  exact .escape (by decide) (hplain ha (hplain hb (hplain hc (hplain hd ht))))

/-- Behind a piece of a string, what is read of it begins with the piece. -/
theorem exists_append_of_inside {x r cs piece : Text} {p : CodePoint}
    (hpiece : Stands true true piece)
    (ih : ∀ {r cs : Text}, stringRest x = .ok (cs, r) →
      ∃ w, x = w ++ .char '"' :: r ∧ Stands true true w)
    (h : (stringRest x).map (consRead p) = .ok (cs, r)) :
    ∃ w, piece ++ x = w ++ .char '"' :: r ∧ Stands true true w := by
  obtain ⟨read, -, hread⟩ := exists_of_map_consRead h
  obtain ⟨w, rfl, hw⟩ := ih hread
  exact ⟨piece ++ w, (List.append_assoc _ _ _).symm, hpiece.append hw⟩

/-- What is read of a string stands inside. -/
theorem exists_of_stringRest {x r cs : Text} (h : stringRest x = .ok (cs, r)) :
    ∃ w, x = w ++ .char '"' :: r ∧ Stands true true w := by
  fun_induction stringRest x generalizing cs r
  case case1 | case3 | case4 | case8 | case10 | case11 => cases h
  case case2 =>
    cases h
    exact ⟨[], rfl, .nil true⟩
  case case5 hn _ _ _ _ _ _ _ _ hp _ ih =>
    rw [pairWith?] at hp
    split at hp
    · rename_i hescape
      obtain ⟨rfl, rfl⟩ := hescape
      obtain ⟨_, hm, -⟩ := Option.bind_eq_some_iff.1 hp
      have hread := exists_append_of_inside (Stands.unit hn (.unit hm (.nil true))) ih h
      exact hread
    · cases hp
  case case6 hn _ _ _ _ _ _ _ _ _ ih =>
    have hread := exists_append_of_inside (Stands.unit hn (.nil true)) ih h
    exact hread
  case case7 hn _ _ _ ih =>
    have hread := exists_append_of_inside (Stands.unit hn (.nil true)) ih h
    exact hread
  case case9 he _ ih =>
    have hpiece := Stands.escape (isGraphic_of_escaped? he) (.nil true)
    have hread := exists_append_of_inside hpiece ih h
    exact hread
  case case12 hquote hslash hcontrol ih =>
    have hpiece := Stands.plain hquote hslash (Nat.le_of_not_lt hcontrol) (.nil true)
    have hread := exists_append_of_inside hpiece ih h
    exact hread

/-- A spelling of a string stands inside. -/
theorem SpellsString.stands {s t : Text} (h : SpellsString s t) : Stands true true t := by
  obtain ⟨w, htext, hw⟩ := exists_of_stringRest (h [])
  rwa [List.append_cancel_right htext]

/-- Read from the outside on, a string is made of tokens. -/
theorem stringRest_outside {x r cs : Text} (hx : Stands false q' x)
    (h : stringRest x = .ok (cs, r)) : Stands true q' r ∧ .char 'o' ∉ cs := by
  induction x generalizing cs with
  | nil => cases h
  | cons c x ih =>
    cases hx with
    | quote hx =>
      rw [stringRest_quote] at h
      cases h
      exact ⟨hx, List.not_mem_nil⟩
    | token hc hx =>
      obtain ⟨-, hquote, hslash, ho⟩ := hc
      by_cases hcontrol : c.toNat < 32
      · rw [stringRest.eq_def] at h
        simp only [if_neg hquote, if_neg hslash, if_pos hcontrol] at h
        cases h
      · rw [stringRest_plain hquote hslash (Nat.le_of_not_lt hcontrol)] at h
        obtain ⟨read, rfl, hread⟩ := exists_of_map_consRead h
        obtain ⟨hr, hnone⟩ := ih hx hread
        exact ⟨hr, List.mem_cons.not.2 (not_or.2 ⟨Ne.symm ho, hnone⟩)⟩

/-- **Reading a string** changes sides, from either side. -/
theorem string_stands {x r cs : Text} (hx : Stands (!q) q' x) (h : string x = .ok (cs, r)) :
    Stands q q' r ∧ (q = true → .char 'o' ∉ cs) := by
  have hrest : stringRest x = .ok (cs, r) := by
    rw [string] at h
    exact mapError_eq_ok.1 h
  cases q with
  | false =>
    obtain ⟨w, rfl, hw⟩ := exists_of_stringRest hrest
    exact ⟨(hw.right hx).tail_quote, fun hq => by cases hq⟩
  | true =>
    obtain ⟨hr, hnone⟩ := stringRest_outside hx hrest
    exact ⟨hr, fun _ => hnone⟩

/-! ## Words and numbers -/

/-- A text of graphic tokens. -/
def IsWord (w : Text) : Prop :=
  ∀ c ∈ w, IsToken c ∧ IsGraphic c

theorem isWord_nil : IsWord [] :=
  fun _ hc => absurd hc List.not_mem_nil

theorem IsWord.cons {w : Text} (hc : IsToken c ∧ IsGraphic c) (hw : IsWord w) : IsWord (c :: w) :=
  List.forall_mem_cons.2 ⟨hc, hw⟩

theorem IsWord.append {v w : Text} (hv : IsWord v) (hw : IsWord w) : IsWord (v ++ w) :=
  List.forall_mem_append.2 ⟨hv, hw⟩

/-- A word stands outside. -/
theorem IsWord.stands {w : Text} (hw : IsWord w) : Stands false false w := by
  induction w with
  | nil => exact .nil false
  | cons c w ih =>
    obtain ⟨hc, hw⟩ := List.forall_mem_cons.1 hw
    exact .token hc.1 (ih hw)

theorem isToken_of_isDigit (h : c.isDigit = true) : IsToken c ∧ IsGraphic c := by
  have hne : ∀ d : CodePoint, d.isDigit = false → c ≠ d := by
    rintro d hd rfl
    cases h.symm.trans hd
  have hgraphic : IsGraphic c := by
    rw [CodePoint.isDigit, Bool.and_eq_true, decide_eq_true_eq, decide_eq_true_eq] at h
    rw [IsGraphic]
    omega
  exact ⟨⟨.inr hgraphic, hne _ rfl, hne _ rfl, hne _ rfl⟩, hgraphic⟩

theorem spanDigits_eq {s digits r : Text} (h : spanDigits s = (digits, r)) :
    s = digits ++ r ∧ IsWord digits := by
  rw [spanDigits, List.span_eq_takeWhile_dropWhile] at h
  obtain ⟨rfl, rfl⟩ := Prod.mk.inj h
  exact ⟨List.takeWhile_append_dropWhile.symm, fun c hc =>
    isToken_of_isDigit (List.mem_takeWhile_imp hc)⟩

theorem wholePart?_eq {s digits r : Text} (h : wholePart? s = some (digits, r)) :
    s = digits ++ r ∧ IsWord digits ∧ digits ≠ [] := by
  unfold wholePart? at h
  split at h
  · cases h
    exact ⟨rfl, isWord_nil.cons (by decide), List.cons_ne_nil _ _⟩
  · cases hspan : spanDigits s with
    | mk front rest =>
      obtain ⟨hs, hfront⟩ := spanDigits_eq hspan
      rw [hspan] at h
      dsimp only at h
      split at h
      · cases h
      · rename_i hne
        cases h
        exact ⟨hs, hfront, by simpa using hne⟩

theorem fractionPart_eq {s digits r : Text} (h : fractionPart s = (digits, r)) :
    ∃ w, s = w ++ r ∧ IsWord w := by
  unfold fractionPart at h
  split at h
  · rename_i r'
    cases hspan : spanDigits r' with
    | mk front rest =>
      obtain ⟨rfl, hfront⟩ := spanDigits_eq hspan
      rw [hspan] at h
      dsimp only at h
      split at h
      · obtain ⟨-, rfl⟩ := Prod.mk.inj h
        exact ⟨[], rfl, isWord_nil⟩
      · obtain ⟨-, rfl⟩ := Prod.mk.inj h
        exact ⟨_, rfl, hfront.cons (by decide)⟩
  · obtain ⟨-, rfl⟩ := Prod.mk.inj h
    exact ⟨[], rfl, isWord_nil⟩

theorem exponentSign_eq {s r : Text} {negative : Bool} (h : exponentSign s = (negative, r)) :
    ∃ w, s = w ++ r ∧ IsWord w := by
  unfold exponentSign at h
  split at h
  · obtain ⟨-, rfl⟩ := Prod.mk.inj h
    exact ⟨[.char '-'], rfl, isWord_nil.cons (by decide)⟩
  · obtain ⟨-, rfl⟩ := Prod.mk.inj h
    exact ⟨[.char '+'], rfl, isWord_nil.cons (by decide)⟩
  · obtain ⟨-, rfl⟩ := Prod.mk.inj h
    exact ⟨[], rfl, isWord_nil⟩

theorem exponentPart_eq {s r : Text} {exponent : Option Int} (h : exponentPart s = (exponent, r)) :
    ∃ w, s = w ++ r ∧ IsWord w := by
  unfold exponentPart at h
  split at h
  · rename_i c r'
    split at h
    · rename_i hletter
      have hc : IsToken c ∧ IsGraphic c := by
        rw [Bool.or_eq_true, decide_eq_true_eq, decide_eq_true_eq] at hletter
        rcases hletter with rfl | rfl <;> decide
      cases hsign : exponentSign r' with
      | mk negative r₁ =>
        obtain ⟨sign, rfl, hword⟩ := exponentSign_eq hsign
        cases hspan : spanDigits r₁ with
        | mk front rest =>
          obtain ⟨rfl, hfront⟩ := spanDigits_eq hspan
          simp only [hsign, hspan] at h
          split at h
          · obtain ⟨-, rfl⟩ := Prod.mk.inj h
            exact ⟨[], rfl, isWord_nil⟩
          · obtain ⟨-, rfl⟩ := Prod.mk.inj h
            exact ⟨c :: (sign ++ front), by simp, (hword.append hfront).cons hc⟩
    · obtain ⟨-, rfl⟩ := Prod.mk.inj h
      exact ⟨[], rfl, isWord_nil⟩
  · obtain ⟨-, rfl⟩ := Prod.mk.inj h
    exact ⟨[], rfl, isWord_nil⟩

theorem unsigned?_eq {negative : Bool} {s r : Text} {v : Json}
    (h : unsigned? negative s = some (.ok (v, r))) :
    ∃ w, s = w ++ r ∧ IsWord w ∧ w ≠ [] ∧ ∀ name, v.field? name = none := by
  cases hwhole : wholePart? s with
  | none =>
    rw [unsigned?, hwhole] at h
    cases h
  | some found =>
    obtain ⟨whole, rest⟩ := found
    obtain ⟨rfl, hdigits, hne⟩ := wholePart?_eq hwhole
    cases hfraction : fractionPart rest with
    | mk fraction rest₁ =>
      obtain ⟨w₁, rfl, hw₁⟩ := fractionPart_eq hfraction
      cases hexponent : exponentPart rest₁ with
      | mk exponent rest₂ =>
        obtain ⟨w₂, rfl, hw₂⟩ := exponentPart_eq hexponent
        have hword : IsWord (whole ++ (w₁ ++ w₂)) := hdigits.append (hw₁.append hw₂)
        have hnonempty : whole ++ (w₁ ++ w₂) ≠ [] := List.append_ne_nil_of_left_ne_nil hne _
        simp only [unsigned?, hwhole, hfraction, hexponent, Option.bind_eq_bind, Option.bind_some]
          at h
        split at h
        · split at h
          · cases h
            exact ⟨_, by simp, hword, hnonempty, fun _ => rfl⟩
          · cases h
        · cases h
          exact ⟨_, by simp, hword, hnonempty, fun _ => rfl⟩

theorem isWord_of_mem_words {entry : Text × Json} (h : entry ∈ words) :
    IsWord entry.1 ∧ entry.1 ≠ [] ∧ ∀ name, entry.2.field? name = none := by
  simp only [words, List.mem_cons, List.not_mem_nil, or_false] at h
  rcases h with rfl | rfl | rfl | rfl | rfl | rfl <;>
    exact ⟨by unfold IsWord; decide, by decide, fun _ => rfl⟩

/-- A word or a number is made of graphic tokens, and has no fields. -/
theorem atom_eq {s r : Text} {v : Json} (h : atom s = .ok (v, r)) :
    ∃ w, s = w ++ r ∧ IsWord w ∧ w ≠ [] ∧ ∀ name, v.field? name = none := by
  unfold atom at h
  split at h
  · rename_i found hfound
    obtain ⟨entry, hentry, hword⟩ := List.exists_of_findSome?_eq_some hfound
    cases h
    obtain ⟨rest, hafter, hpair⟩ := Option.map_eq_some_iff.1 hword
    obtain ⟨rfl, rfl⟩ := Prod.mk.inj hpair
    obtain ⟨hchars, hne, hfields⟩ := isWord_of_mem_words hentry
    exact ⟨entry.1, Text.afterWord?_eq_some hafter, hchars, hne, hfields⟩
  · dsimp only at h
    split at h
    · rename_i r' _
      cases hnumber : unsigned? true r' with
      | none =>
        rw [hnumber] at h
        cases h
      | some found =>
        rw [hnumber] at h
        obtain rfl : found = .ok (v, r) := h
        obtain ⟨w, rfl, hw, -, hfields⟩ := unsigned?_eq hnumber
        exact ⟨.char '-' :: w, rfl, hw.cons (by decide), List.cons_ne_nil _ _, hfields⟩
    · cases hnumber : unsigned? false s with
      | none =>
        rw [hnumber] at h
        cases h
      | some found =>
        rw [hnumber] at h
        obtain rfl : found = .ok (v, r) := h
        exact unsigned?_eq hnumber

/-! ## Spellings -/

theorem isToken_of_isGap (h : isGap c = true) : IsToken c := by
  refine ⟨.inl h, ?_, ?_, ?_⟩ <;>
  · rintro rfl
    cases h

theorem Gap.stands {gap : Text} (hgap : Gap gap) : Stands false false gap := by
  induction gap with
  | nil => exact .nil false
  | cons c gap ih =>
    obtain ⟨hc, hgap⟩ := List.forall_mem_cons.1 hgap
    exact .token (isToken_of_isGap hc) (ih hgap)

theorem SpellsAtom.isWord {v : Json} {t : Text} (h : SpellsAtom v t) :
    IsWord t ∧ ∀ name, v.field? name = none := by
  have hreads := h.reads [] ends_nil
  obtain ⟨w, htext, hw, -, hfields⟩ := atom_eq hreads
  rw [List.append_cancel_right htext]
  exact ⟨hw, hfields⟩

/-- The quotes around a string lead inside and out again. -/
theorem SpellsString.quoted {s t u : Text} (h : SpellsString s t) (hu : Stands false q' u) :
    Stands false q' (.char '"' :: (t ++ .char '"' :: u)) :=
  .quote (h.stands.append (.quote hu))

mutual

/-- **A spelling stands outside**, from one end to the other. -/
theorem Spells.stands {depth : Nat} {v : Json} {t : Text} (h : Spells depth v t) :
    Stands false false t :=
  match h with
  | .atom h => h.isWord.1.stands
  | .str h => h.quoted (.nil false)
  | .noItems hgap => .token (by decide) (hgap.stands.append (.token (by decide) (.nil false)))
  | .arr hgap h => .token (by decide) (hgap.stands.append h.stands)
  | .noFields hgap => .token (by decide) (hgap.stands.append (.token (by decide) (.nil false)))
  | .obj hgap h => .token (by decide) (hgap.stands.append h.stands)

theorem SpellsItems.stands {depth : Nat} {vs : List Json} {t : Text} (h : SpellsItems depth vs t) :
    Stands false false t :=
  match h with
  | .last h hgap => h.stands.append (hgap.stands.append (.token (by decide) (.nil false)))
  | .more h hgap₁ hgap₂ hmore =>
    h.stands.append (hgap₁.stands.append (.token (by decide) (hgap₂.stands.append hmore.stands)))

theorem SpellsFields.stands {depth : Nat} {before after : List (Text × Json)} {t : Text}
    (h : SpellsFields depth before after t) : Stands false false t :=
  match h with
  | .last hname hgap₁ hgap₂ h hgap₃ =>
    hname.quoted (hgap₁.stands.append (.token (by decide) (hgap₂.stands.append
      (h.stands.append (hgap₃.stands.append (.token (by decide) (.nil false)))))))
  | .more hname hgap₁ hgap₂ h hgap₃ hgap₄ hmore =>
    hname.quoted (hgap₁.stands.append (.token (by decide) (hgap₂.stands.append
      (h.stands.append (hgap₃.stands.append (.token (by decide)
        (hgap₄.stands.append hmore.stands)))))))

end

/-! ## The reader -/

theorem Stands.skipGap {s : Text} (h : Stands q q' s) : Stands q q' (skipGap s) := by
  rw [← List.takeWhile_append_dropWhile (p := isGap) (l := s)] at h
  refine h.drop fun c hc => ?_
  have htoken := isToken_of_isGap (List.mem_takeWhile_imp hc)
  exact ⟨htoken.2.1, htoken.2.2.1⟩

/-- Reading a value does not change sides, and from the inside no field `reason` is read. -/
def ValueStands (fuel : Nat) : Prop :=
  ∀ {depth : Nat} {q q' : Bool} {s r : Text} {v : Json}, Stands q q' s →
    value depth fuel s = .ok (v, r) → Stands q q' r ∧ (q = true → v.field? "reason" = none)

/-- Reading the items of a list does not change sides. -/
def ItemsStand (fuel : Nat) : Prop :=
  ∀ {depth : Nat} {q q' : Bool} {s r : Text} {vs : List Json}, Stands q q' s →
    items depth fuel s = .ok (vs, r) → Stands q q' r

/-- Reading the fields of an object does not change sides, and from the inside no field `reason` is
read. -/
def MembersStand (fuel : Nat) : Prop :=
  ∀ {depth : Nat} {q q' : Bool} {s r : Text} {before after : List (Text × Json)}, Stands q q' s →
    members depth fuel before s = .ok (after, r) → Stands q q' r ∧
      (q = true → fieldOf? "reason" before = none → fieldOf? "reason" after = none)

theorem valueStands_succ {fuel : Nat} (hitems : ItemsStand fuel) (hmembers : MembersStand fuel) :
    ValueStands (fuel + 1) := by
  intro depth q q' s r v hs h
  rw [value.eq_def] at h
  dsimp only at h
  split at h
  · obtain ⟨⟨cs, rest⟩, hstring, hfound⟩ := map_eq_ok.1 h
    cases hfound
    exact ⟨(string_stands hs.tail_quote hstring).1, fun _ => rfl⟩
  · have hopen := (hs.tail (by decide) (by decide)).skipGap
    cases depth with
    | zero => cases h
    | succ depth =>
      dsimp only at h
      split at h
      · rename_i hgap
        cases h
        rw [hgap] at hopen
        exact ⟨hopen.tail (by decide) (by decide), fun _ => rfl⟩
      · obtain ⟨⟨vs, rest⟩, hread, hfound⟩ := map_eq_ok.1 h
        cases hfound
        exact ⟨hitems hopen hread, fun _ => rfl⟩
  · have hopen := (hs.tail (by decide) (by decide)).skipGap
    cases depth with
    | zero => cases h
    | succ depth =>
      dsimp only at h
      split at h
      · rename_i hgap
        cases h
        rw [hgap] at hopen
        exact ⟨hopen.tail (by decide) (by decide), fun _ => rfl⟩
      · obtain ⟨⟨fs, rest⟩, hread, hfound⟩ := map_eq_ok.1 h
        cases hfound
        obtain ⟨hrest, hnone⟩ := hmembers hopen hread
        exact ⟨hrest, fun hq => hnone hq rfl⟩
  · obtain ⟨w, rfl, hw, -, hfields⟩ := atom_eq h
    exact ⟨hs.drop fun c hc => ⟨(hw c hc).1.2.1, (hw c hc).1.2.2.1⟩, fun _ => hfields _⟩

theorem itemsStand_succ {fuel : Nat} (hvalue : ValueStands fuel) (hitems : ItemsStand fuel) :
    ItemsStand (fuel + 1) := by
  intro depth q q' s r vs hs h
  rw [items] at h
  obtain ⟨⟨v, r₁⟩, hread, h⟩ := bind_eq_ok.1 h
  have hbehind := (hvalue hs hread).1.skipGap
  dsimp only at h
  split at h
  · rename_i hgap
    cases h
    rw [hgap] at hbehind
    exact hbehind.tail (by decide) (by decide)
  · rename_i hgap
    rw [hgap] at hbehind
    obtain ⟨⟨vs, rest⟩, hmore, hfound⟩ := map_eq_ok.1 h
    cases hfound
    exact hitems (hbehind.tail (by decide) (by decide)).skipGap hmore
  · cases h

theorem membersStand_succ {fuel : Nat} (hvalue : ValueStands fuel)
    (hmembers : MembersStand fuel) : MembersStand (fuel + 1) := by
  intro depth q q' s r before after hs h
  rw [members.eq_def] at h
  dsimp only at h
  split at h
  · obtain ⟨⟨name, r₁⟩, hname, h⟩ := bind_eq_ok.1 h
    obtain ⟨hbehind, hplain⟩ := string_stands hs.tail_quote hname
    replace hbehind := hbehind.skipGap
    dsimp only at h
    split at h
    · rename_i hcolon
      rw [hcolon] at hbehind
      obtain ⟨⟨v, r₂⟩, hread, h⟩ := bind_eq_ok.1 h
      have hfield := (hvalue (hbehind.tail (by decide) (by decide)).skipGap hread).1.skipGap
      -- a name without an `o` is another one than `reason`
      have hput : q = true → fieldOf? "reason" before = none →
          fieldOf? "reason" (putField name v before) = none := by
        intro hq hnone
        rw [fieldOf?_putField_of_ne, hnone]
        rintro rfl
        exact hplain hq (by decide)
      dsimp only at h
      split at h
      · rename_i hend
        cases h
        rw [hend] at hfield
        exact ⟨hfield.tail (by decide) (by decide), hput⟩
      · rename_i hcomma
        rw [hcomma] at hfield
        obtain ⟨hrest, hnone⟩ :=
          hmembers (hfield.tail (by decide) (by decide)).skipGap h
        exact ⟨hrest, fun hq hbefore => hnone hq (hput hq hbefore)⟩
      · cases h
    · cases h
  · cases h

/-- **The reader does not change sides**, and from the inside it reads no field `reason`. -/
theorem value_stands (fuel : Nat) : ValueStands fuel ∧ ItemsStand fuel ∧ MembersStand fuel := by
  induction fuel with
  | zero =>
    refine ⟨?_, ?_, ?_⟩
    · intro depth q q' s r v hs h
      cases h
    · intro depth q q' s r vs hs h
      cases h
    · intro depth q q' s r before after hs h
      cases h
  | succ fuel ih =>
    obtain ⟨hvalue, hitems, hmembers⟩ := ih
    exact ⟨valueStands_succ hitems hmembers, itemsStand_succ hvalue hitems,
      membersStand_succ hvalue hmembers⟩

/-- A text that is read ends on the side on which it begins, and from the inside no field `reason`
is read. -/
theorem read_stands {s : Text} {v : Json} (hs : Stands q q' s) (h : read s = .ok v) :
    q = q' ∧ (q = true → v.field? "reason" = none) := by
  rw [read] at h
  have hdocument := mapError_eq_ok.1 h
  unfold document at hdocument
  split at hdocument
  · cases hdocument
  · obtain ⟨⟨v', r⟩, hvalue, hrest⟩ := bind_eq_ok.1 hdocument
    obtain ⟨hr, hnone⟩ := (value_stands _).1 hs.skipGap hvalue
    dsimp only at hrest
    split at hrest
    · rename_i hempty
      cases hrest
      have hend := hr.skipGap
      rw [List.isEmpty_iff.1 hempty] at hend
      exact ⟨hend.eq_of_not_graphic (by simp), hnone⟩
    · cases hrest

end Json

end ProjectAudit
