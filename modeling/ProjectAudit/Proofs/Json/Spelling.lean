import ProjectAudit.Proofs.Json.Numerals

/-!
# Texts that spell a value

A value can be spelled in many ways: between any two tokens there may be blanks, and a code point of
a string may be written as it is or as an escape.  `Spells` says which texts spell which values,
by the same grammar that the reader follows but without its fuel, and with no word on how a string
or a number is read beyond what comes out.

The reader reads every such text, whatever comes behind it.  The induction is over the spelling.
Each list or object takes one level of the depth, and each token at least one code point, so that
fuel for the length of a text is enough.

* `Json.Spells`: the spellings of a value.
* `Json.read_of_spells`: a text that spells a value, with blanks around it, is read as that value.
-/

namespace ProjectAudit

namespace Json

/-- A text of blanks. -/
def Gap (t : Text) : Prop :=
  ∀ c ∈ t, isGap c = true

/-- A code point that begins a word or a number. -/
def StartsAtom (c : CodePoint) : Prop :=
  isGap c = false ∧ c ∉ (['"', '[', ']', '\x7b', '\uFEFF'] : List CodePoint)

/-- The text between two quotes is read as the given one. -/
def SpellsString (s t : Text) : Prop :=
  ∀ rest, stringRest (t ++ .char '"' :: rest) = .ok (s, rest)

/-- The text is a word or a number, read as the given value. -/
structure SpellsAtom (v : Json) (t : Text) : Prop where
  starts : ∃ c r, t = c :: r ∧ StartsAtom c
  reads : ∀ rest, Ends rest → atom (t ++ rest) = .ok (v, rest)

mutual

/-- The text spells the value, with lists and objects nested at most `depth` deep. -/
inductive Spells : (depth : Nat) → Json → Text → Prop
  | atom {depth : Nat} {v : Json} {t : Text} (h : SpellsAtom v t) : Spells depth v t
  | str {depth : Nat} {s t : Text} (h : SpellsString s t) :
    Spells depth (.str s) (.char '"' :: (t ++ [.char '"']))
  | noItems {depth : Nat} {gap : Text} (hgap : Gap gap) :
    Spells (depth + 1) (.arr []) (.char '[' :: (gap ++ [.char ']']))
  | arr {depth : Nat} {gap t : Text} {vs : List Json} (hgap : Gap gap)
    (h : SpellsItems depth vs t) : Spells (depth + 1) (.arr vs) (.char '[' :: (gap ++ t))
  | noFields {depth : Nat} {gap : Text} (hgap : Gap gap) :
    Spells (depth + 1) (.obj []) (.char '\x7b' :: (gap ++ [.char '\x7d']))
  | obj {depth : Nat} {gap t : Text} {fs : List (Text × Json)} (hgap : Gap gap)
    (h : SpellsFields depth [] fs t) : Spells (depth + 1) (.obj fs) (.char '\x7b' :: (gap ++ t))

/-- The text spells the items of a list, up to the closing bracket. -/
inductive SpellsItems : (depth : Nat) → List Json → Text → Prop
  | last {depth : Nat} {v : Json} {t gap : Text} (h : Spells depth v t) (hgap : Gap gap) :
    SpellsItems depth [v] (t ++ (gap ++ [.char ']']))
  | more {depth : Nat} {v : Json} {t gap₁ gap₂ ts : Text} {vs : List Json} (h : Spells depth v t)
    (hgap₁ : Gap gap₁) (hgap₂ : Gap gap₂) (hmore : SpellsItems depth vs ts) :
    SpellsItems depth (v :: vs) (t ++ (gap₁ ++ .char ',' :: (gap₂ ++ ts)))

/-- The text spells further fields of an object, up to the closing brace: those that it has before
and those that it has then. -/
inductive SpellsFields :
    (depth : Nat) → (before after : List (Text × Json)) → Text → Prop
  | last {depth : Nat} {before : List (Text × Json)} {name n gap₁ gap₂ t gap₃ : Text} {v : Json}
    (hname : SpellsString name n) (hgap₁ : Gap gap₁) (hgap₂ : Gap gap₂) (h : Spells depth v t)
    (hgap₃ : Gap gap₃) :
    SpellsFields depth before (putField name v before)
      (.char '"' :: (n ++ .char '"' :: (gap₁ ++ .char ':' :: (gap₂ ++ (t ++
        (gap₃ ++ [.char '\x7d']))))))
  | more {depth : Nat} {before after : List (Text × Json)} {name n gap₁ gap₂ t gap₃ gap₄ ts : Text}
    {v : Json} (hname : SpellsString name n) (hgap₁ : Gap gap₁) (hgap₂ : Gap gap₂)
    (h : Spells depth v t) (hgap₃ : Gap gap₃) (hgap₄ : Gap gap₄)
    (hmore : SpellsFields depth (putField name v before) after ts) :
    SpellsFields depth before after
      (.char '"' :: (n ++ .char '"' :: (gap₁ ++ .char ':' :: (gap₂ ++ (t ++
        (gap₃ ++ .char ',' :: (gap₄ ++ ts)))))))

end

/-! ## Blanks -/

theorem gap_nil : Gap [] :=
  fun _ h => absurd h List.not_mem_nil

theorem skipGap_append {gap : Text} (hgap : Gap gap) {c : CodePoint} (hc : isGap c = false)
    (r : Text) : skipGap (gap ++ c :: r) = c :: r := by
  rw [skipGap, List.dropWhile_append_of_pos hgap, List.dropWhile_cons_of_neg (by simp [hc])]

theorem ends_append {gap : Text} (hgap : Gap gap) {c : CodePoint}
    (hc : c ∈ ([',', ']', '\x7d'] : List CodePoint)) (r : Text) : Ends (gap ++ c :: r) := by
  cases gap with
  | nil => exact ends_cons (.inr hc) r
  | cons g gap => exact ends_cons (.inl (hgap g List.mem_cons_self)) _

/-- What a spelling begins with. -/
theorem Spells.starts {depth : Nat} {v : Json} {t : Text} (h : Spells depth v t) :
    ∃ c r, t = c :: r ∧ isGap c = false ∧ c ≠ ']' ∧ c ≠ '\uFEFF' := by
  cases h with
  | atom h =>
    obtain ⟨c, r, rfl, hgap, hc⟩ := h.starts
    exact ⟨c, r, rfl, hgap, by rintro rfl; exact hc (by simp), by rintro rfl; exact hc (by simp)⟩
  | str h => exact ⟨_, _, rfl, by decide, by decide, by decide⟩
  | noItems hgap => exact ⟨_, _, rfl, by decide, by decide, by decide⟩
  | arr hgap h => exact ⟨_, _, rfl, by decide, by decide, by decide⟩
  | noFields hgap => exact ⟨_, _, rfl, by decide, by decide, by decide⟩
  | obj hgap h => exact ⟨_, _, rfl, by decide, by decide, by decide⟩

theorem SpellsItems.starts {depth : Nat} {vs : List Json} {t : Text} (h : SpellsItems depth vs t) :
    ∃ c r, t = c :: r ∧ isGap c = false ∧ c ≠ ']' := by
  cases h with
  | last h hgap =>
    obtain ⟨c, r, rfl, hc, hbracket, -⟩ := h.starts
    exact ⟨c, _, rfl, hc, hbracket⟩
  | more h hgap₁ hgap₂ hmore =>
    obtain ⟨c, r, rfl, hc, hbracket, -⟩ := h.starts
    exact ⟨c, _, rfl, hc, hbracket⟩

theorem SpellsFields.starts {depth : Nat} {before after : List (Text × Json)} {t : Text}
    (h : SpellsFields depth before after t) : ∃ r, t = .char '"' :: r := by
  cases h with
  | last => exact ⟨_, rfl⟩
  | more => exact ⟨_, rfl⟩

theorem Spells.skipGap {depth : Nat} {v : Json} {t gap : Text} (h : Spells depth v t)
    (hgap : Gap gap) (rest : Text) : skipGap (gap ++ (t ++ rest)) = t ++ rest := by
  obtain ⟨c, r, rfl, hc, -⟩ := h.starts
  exact skipGap_append hgap hc _

theorem SpellsItems.skipGap {depth : Nat} {vs : List Json} {t gap : Text}
    (h : SpellsItems depth vs t) (hgap : Gap gap) (rest : Text) :
    skipGap (gap ++ (t ++ rest)) = t ++ rest := by
  obtain ⟨c, r, rfl, hc, -⟩ := h.starts
  exact skipGap_append hgap hc _

theorem SpellsFields.skipGap {depth : Nat} {before after : List (Text × Json)} {t gap : Text}
    (h : SpellsFields depth before after t) (hgap : Gap gap) (rest : Text) :
    skipGap (gap ++ (t ++ rest)) = t ++ rest := by
  obtain ⟨r, rfl⟩ := h.starts
  exact skipGap_append hgap (by decide) _

/-! ## Steps of the reader -/

theorem string_of_spells {s t : Text} (h : SpellsString s t) (rest : Text) :
    string (t ++ .char '"' :: rest) = .ok (s, rest) := by
  rw [string, h rest]
  rfl

variable {depth fuel : Nat}

theorem value_of_startsAtom {c : CodePoint} (hc : StartsAtom c) (r : Text) :
    value depth (fuel + 1) (c :: r) = atom (c :: r) := by
  obtain ⟨-, hc⟩ := hc
  simp only [List.mem_cons, List.not_mem_nil, or_false, not_or] at hc
  rw [value]
  · exact fun r' heq => hc.1 (List.cons.inj heq).1
  · exact fun r' heq => hc.2.1 (List.cons.inj heq).1
  · exact fun r' heq => hc.2.2.2.1 (List.cons.inj heq).1

theorem value_items {r t : Text} {vs : List Json} (hr : skipGap r = t)
    (hstart : ∃ c u, t = c :: u ∧ c ≠ ']') {rest : Text}
    (hitems : items depth fuel t = .ok (vs, rest)) :
    value (depth + 1) (fuel + 1) (.char '[' :: r) = .ok (.arr vs, rest) := by
  obtain ⟨c, u, rfl, hc⟩ := hstart
  rw [value, hr]
  split
  · rename_i heq
    exact absurd (List.cons.inj heq).1 hc
  · rw [hitems]
    rfl

theorem value_fields {r t : Text} {fs : List (Text × Json)} (hr : skipGap r = .char '"' :: t)
    {rest : Text} (hfields : members depth fuel [] (.char '"' :: t) = .ok (fs, rest)) :
    value (depth + 1) (fuel + 1) (.char '\x7b' :: r) = .ok (.obj fs, rest) := by
  rw [value, hr]
  split
  · rename_i heq
    exact absurd (List.cons.inj heq).1 (by decide)
  · rw [hfields]
    rfl

theorem items_last {t r rest : Text} {v : Json} (hv : value depth fuel t = .ok (v, r))
    (hr : skipGap r = .char ']' :: rest) :
    items depth (fuel + 1) t = .ok ([v], rest) := by
  rw [items, hv]
  simp only [bind, Except.bind, hr]

theorem items_more {t r r₁ r₂ rest : Text} {v : Json} {vs : List Json}
    (hv : value depth fuel t = .ok (v, r)) (hr : skipGap r = .char ',' :: r₁)
    (hskip : skipGap r₁ = r₂) (hvs : items depth fuel r₂ = .ok (vs, rest)) :
    items depth (fuel + 1) t = .ok (v :: vs, rest) := by
  rw [items, hv]
  simp only [bind, Except.bind, hr, hskip, hvs]
  rfl

theorem members_last {before : List (Text × Json)} {t r₁ r₂ r₃ r₄ rest : Text} {name : Text}
    {v : Json} (hname : string t = .ok (name, r₁)) (hcolon : skipGap r₁ = .char ':' :: r₂)
    (hskip : skipGap r₂ = r₃) (hv : value depth fuel r₃ = .ok (v, r₄))
    (hend : skipGap r₄ = .char '\x7d' :: rest) :
    members depth (fuel + 1) before (.char '"' :: t) = .ok (putField name v before, rest) := by
  rw [members, hname]
  simp only [bind, Except.bind, hcolon, hskip, hv, hend]

theorem members_more {before after : List (Text × Json)} {t r₁ r₂ r₃ r₄ r₅ r₆ rest : Text}
    {name : Text} {v : Json} (hname : string t = .ok (name, r₁))
    (hcolon : skipGap r₁ = .char ':' :: r₂) (hskip : skipGap r₂ = r₃)
    (hv : value depth fuel r₃ = .ok (v, r₄)) (hcomma : skipGap r₄ = .char ',' :: r₅)
    (hnext : skipGap r₅ = r₆)
    (hfields : members depth fuel (putField name v before) r₆ = .ok (after, rest)) :
    members depth (fuel + 1) before (.char '"' :: t) = .ok (after, rest) := by
  rw [members, hname]
  simp only [bind, Except.bind, hcolon, hskip, hv, hcomma, hnext, hfields]

/-! ## Reading a spelling -/

mutual

/-- A spelling is read as its value, whatever comes behind it. -/
theorem value_of_spells {depth fuel : Nat} {v : Json} {t : Text} (h : Spells depth v t)
    (hfuel : t.length ≤ fuel) {rest : Text} (hrest : Ends rest) :
    value depth fuel (t ++ rest) = .ok (v, rest) := by
  -- a spelling is never empty, so there is fuel for the call itself
  obtain ⟨fuel, rfl⟩ : ∃ n, fuel = n + 1 := by
    obtain ⟨c, r, rfl, -⟩ := h.starts
    exact Nat.exists_eq_add_one.2 (Nat.lt_of_lt_of_le (Nat.succ_pos _) hfuel)
  match h with
  | .atom h =>
    have hatom := h.reads rest hrest
    obtain ⟨c, r, rfl, hc⟩ := h.starts
    exact (value_of_startsAtom hc _).trans hatom
  | .str (s := s) (t := t) h =>
    rw [List.cons_append, List.append_assoc, value]
    exact congrArg (Except.map _) (string_of_spells h rest)
  | .noItems hgap =>
    simp only [List.cons_append, List.append_assoc, List.nil_append]
    rw [value, skipGap_append hgap (by decide)]
    rfl
  | .arr (t := t) hgap h =>
    have hlength : t.length ≤ fuel := by
      simp only [List.length_cons, List.length_append] at hfuel
      omega
    obtain ⟨c, r, rfl, hc, hbracket⟩ := h.starts
    rw [List.cons_append, List.append_assoc]
    exact value_items (skipGap_append hgap hc _) ⟨c, _, rfl, hbracket⟩
      (items_of_spells h hlength rest)
  | .noFields hgap =>
    simp only [List.cons_append, List.append_assoc, List.nil_append]
    rw [value, skipGap_append hgap (by decide)]
    rfl
  | .obj (t := t) hgap h =>
    have hlength : t.length ≤ fuel := by
      simp only [List.length_cons, List.length_append] at hfuel
      omega
    obtain ⟨r, rfl⟩ := h.starts
    rw [List.cons_append, List.append_assoc]
    exact value_fields (skipGap_append hgap (by decide) _) (members_of_spells h hlength rest)

theorem items_of_spells {depth fuel : Nat} {vs : List Json} {t : Text} (h : SpellsItems depth vs t)
    (hfuel : t.length ≤ fuel) (rest : Text) : items depth fuel (t ++ rest) = .ok (vs, rest) := by
  obtain ⟨fuel, rfl⟩ : ∃ n, fuel = n + 1 := by
    obtain ⟨c, r, rfl, -⟩ := h.starts
    exact Nat.exists_eq_add_one.2 (Nat.lt_of_lt_of_le (Nat.succ_pos _) hfuel)
  match h with
  | .last h hgap =>
    simp only [List.length_append, List.length_cons] at hfuel
    rw [List.append_assoc, List.append_assoc]
    exact items_last (value_of_spells h (by omega) (ends_append hgap (by simp) rest))
      (skipGap_append hgap (by decide) rest)
  | .more h hgap₁ hgap₂ hmore =>
    simp only [List.length_append, List.length_cons] at hfuel
    simp only [List.append_assoc, List.cons_append]
    exact items_more (value_of_spells h (by omega) (ends_append hgap₁ (by simp) _))
      (skipGap_append hgap₁ (by decide) _) (hmore.skipGap hgap₂ rest)
      (items_of_spells hmore (by omega) rest)

theorem members_of_spells {depth fuel : Nat} {before after : List (Text × Json)} {t : Text}
    (h : SpellsFields depth before after t) (hfuel : t.length ≤ fuel) (rest : Text) :
    members depth fuel before (t ++ rest) = .ok (after, rest) := by
  obtain ⟨fuel, rfl⟩ : ∃ n, fuel = n + 1 := by
    obtain ⟨r, rfl⟩ := h.starts
    exact Nat.exists_eq_add_one.2 (Nat.lt_of_lt_of_le (Nat.succ_pos _) hfuel)
  match h with
  | .last hname hgap₁ hgap₂ h hgap₃ =>
    simp only [List.length_append, List.length_cons] at hfuel
    simp only [List.cons_append, List.append_assoc, List.nil_append]
    exact members_last (string_of_spells hname _) (skipGap_append hgap₁ (by decide) _)
      (h.skipGap hgap₂ _) (value_of_spells h (by omega) (ends_append hgap₃ (by simp) _))
      (skipGap_append hgap₃ (by decide) rest)
  | .more hname hgap₁ hgap₂ h hgap₃ hgap₄ hmore =>
    simp only [List.length_append, List.length_cons] at hfuel
    simp only [List.cons_append, List.append_assoc]
    exact members_more (string_of_spells hname _) (skipGap_append hgap₁ (by decide) _)
      (h.skipGap hgap₂ _) (value_of_spells h (by omega) (ends_append hgap₃ (by simp) _))
      (skipGap_append hgap₃ (by decide) _) (hmore.skipGap hgap₄ rest)
      (members_of_spells hmore (by omega) rest)

end

/-- **Reading a spelling.**  A text that spells a value, with lists and objects nested no deeper
than the reader allows, is read as that value. -/
theorem read_of_spells {v : Json} {t : Text} (h : Spells maxDepth v t) : read t = .ok v := by
  have hskip := h.skipGap gap_nil []
  have hvalue := value_of_spells h (by omega : _ ≤ 2 * t.length + 2) ends_nil
  rw [List.nil_append, List.append_nil] at hskip
  rw [List.append_nil] at hvalue
  have hdocument : document t = .ok v := by
    obtain ⟨c, r, rfl, -, -, hmark⟩ := h.starts
    rw [document]
    · rw [hskip, hvalue]
      rfl
    · exact fun _ heq => hmark (List.cons.inj heq).1
  rw [read, hdocument]
  rfl

end Json

end ProjectAudit
