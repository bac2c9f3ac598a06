import ProjectAudit.Text.Basic

/-!
# The order of texts

Texts are compared by the numbers of their code points, of which no two have the same one
(`CodePoint.toNat_inj`), so the order is a linear one.  `Text.le` is the test that a sort is given;
its strict part is the lexicographic order on the numbers (`Text.lex_of_le_of_ne`).
-/

namespace ProjectAudit

/-- The numbers between those of characters are those of the surrogates. -/
theorem CodePoint.toNat_inj {a b : CodePoint} : a.toNat = b.toNat ↔ a = b := by
  constructor
  · intro heq
    cases a with
    | char c =>
      cases b with
      | char d => exact congrArg char (Char.toNat_inj.1 heq)
      | surrogate offset =>
        have hvalid := c.valid
        have hbound := offset.isLt
        have hnat : c.val.toNat = 0xD800 + offset.val := heq
        rcases hvalid with hlow | ⟨hhigh, -⟩ <;> omega
    | surrogate offset =>
      cases b with
      | char d =>
        have hvalid := d.valid
        have hbound := offset.isLt
        have hnat : 0xD800 + offset.val = d.val.toNat := heq
        rcases hvalid with hlow | ⟨hhigh, -⟩ <;> omega
      | surrogate offset' =>
        have hnat : 0xD800 + offset.val = 0xD800 + offset'.val := heq
        have hoffset : offset = offset' := Fin.ext (by omega)
        rw [hoffset]
  · exact congrArg toNat

/-- Only the capitals of ASCII are made small. -/
theorem CodePoint.toLower_of_gt {c : CodePoint} (h : 90 < c.toNat) : c.toLower = c := by
  cases c with
  | surrogate offset => rfl
  | char c =>
    refine congrArg CodePoint.char ?_
    have hc : 90 < c.val.toNat := h
    delta Char.toLower
    rw [dif_neg]
    rintro ⟨-, hle⟩
    have hle : c.val.toNat ≤ 90 := hle
    omega

namespace Text

theorem le_cons_cons {a b : CodePoint} {s t : Text} :
    le (a :: s) (b :: t) = true ↔ a.toNat < b.toNat ∨ a = b ∧ le s t = true := by
  simp [le]

theorem le_total (s t : Text) : (le s t || le t s) = true := by
  rw [Bool.or_eq_true]
  induction s generalizing t with
  | nil => exact .inl rfl
  | cons a s ih =>
    cases t with
    | nil => exact .inr rfl
    | cons b t =>
      rw [le_cons_cons, le_cons_cons]
      rcases Nat.lt_trichotomy a.toNat b.toNat with hlt | heq | hgt
      · exact .inl (.inl hlt)
      · obtain rfl := CodePoint.toNat_inj.1 heq
        exact (ih t).imp (fun h => .inr ⟨rfl, h⟩) fun h => .inr ⟨rfl, h⟩
      · exact .inr (.inl hgt)

theorem le_trans {r s t : Text} (hrs : le r s = true) (hst : le s t = true) : le r t = true := by
  induction r generalizing s t with
  | nil => rfl
  | cons a r ih =>
    cases s with
    | nil => cases hrs
    | cons b s =>
      cases t with
      | nil => cases hst
      | cons c t =>
        rw [le_cons_cons] at hrs hst ⊢
        rcases hrs with hlt | ⟨rfl, hrs⟩
        · rcases hst with hlt' | ⟨rfl, -⟩
          · exact .inl (Nat.lt_trans hlt hlt')
          · exact .inl hlt
        · rcases hst with hlt | ⟨rfl, hst⟩
          · exact .inl hlt
          · exact .inr ⟨rfl, ih hrs hst⟩

/-- Of two different texts, one is before the other in the order of numbers. -/
theorem lex_of_le_of_ne {s t : Text} (hle : le s t = true) (hne : s ≠ t) :
    List.Lex (· < ·) (s.map CodePoint.toNat) (t.map CodePoint.toNat) := by
  induction s generalizing t with
  | nil =>
    cases t with
    | nil => exact absurd rfl hne
    | cons b t => exact .nil
  | cons a s ih =>
    cases t with
    | nil => cases hle
    | cons b t =>
      rcases le_cons_cons.1 hle with hlt | ⟨rfl, htail⟩
      · exact .rel hlt
      · exact .cons (ih htail fun heq => hne (heq ▸ rfl))

theorem le_antisymm {s t : Text} (hst : le s t = true) (hts : le t s = true) : s = t := by
  induction s generalizing t with
  | nil =>
    cases t with
    | nil => rfl
    | cons b t => cases hts
  | cons a s ih =>
    cases t with
    | nil => cases hst
    | cons b t =>
      rcases le_cons_cons.1 hst with hlt | ⟨rfl, htail⟩
      · rcases le_cons_cons.1 hts with hgt | ⟨rfl, -⟩
        · exact absurd hgt (Nat.lt_asymm hlt)
        · exact absurd hlt (Nat.lt_irrefl _)
      · rcases le_cons_cons.1 hts with hgt | ⟨-, htail'⟩
        · exact absurd hgt (Nat.lt_irrefl _)
        · rw [ih htail htail']

end Text

end ProjectAudit
