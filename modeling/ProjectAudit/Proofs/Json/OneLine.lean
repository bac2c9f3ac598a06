import ProjectAudit.Proofs.Json.Quoting
import ProjectAudit.Proofs.Text.Lines
import ProjectAudit.Proofs.Text.Order

/-!
# Values on one line

A writer that keeps to one line for each value ends the line with a line feed and has none in it.
That is not enough for the value to be one line for `Text.splitLines`: control characters of ASCII
can stand nowhere in a spelling as they are, but U+0085, U+2028 and U+2029 can stand inside of a
string, and a writer that escapes only what it has to escape leaves them there.

* `Json.SpellsLine`: the spellings of a value on one line.
* `Json.Stands.pieces`: where a text is cut that spells values.
* `Json.SpellsLine.unbroken`: without these three boundaries such a spelling is not cut.
* `Json.holdsBoundary_rawWritten`: a writer with few escapes leaves the boundaries of a string.
* `Json.Spells.trim_eq`: there are no blanks at the ends of a spelling.
-/

namespace ProjectAudit

namespace Json

/-! ## Boundaries in a spelling -/

/-- The text spells the value on one line. -/
structure SpellsLine (v : Json) (t : Text) : Prop where
  spells : Spells maxDepth v t
  newline : .char '\n' ∉ t
  carriageReturn : .char '\r' ∉ t

/-- The line boundaries that are no control characters of ASCII. -/
def rawBoundaries : List CodePoint :=
  ['\u0085', '\u2028', '\u2029']

/-- A text that holds such a boundary. -/
def HoldsBoundary (t : Text) : Prop :=
  ∃ c ∈ t, c ∈ rawBoundaries

instance (t : Text) : Decidable (HoldsBoundary t) :=
  inferInstanceAs (Decidable (∃ c ∈ t, c ∈ rawBoundaries))

variable {q q' : Bool} {t : Text} {c : CodePoint}

theorem Stands.isGap_or_of_mem (h : Stands q q' t) (hc : c ∈ t) :
    isGap c = true ∨ 32 ≤ c.toNat := by
  induction h with
  | nil => exact absurd hc List.not_mem_nil
  | quote _ ih =>
    rcases List.mem_cons.1 hc with rfl | hc
    · exact .inr (by decide)
    · exact ih hc
  | token htoken _ ih =>
    rcases List.mem_cons.1 hc with rfl | hc
    · exact htoken.1.imp id fun hgraphic => Nat.le_of_succ_le hgraphic.1
    · exact ih hc
  | plain _ _ hcontrol _ ih =>
    rcases List.mem_cons.1 hc with rfl | hc
    · exact .inr hcontrol
    · exact ih hc
  | escape he _ ih =>
    rcases List.mem_cons.1 hc with rfl | hc
    · exact .inr (by decide)
    rcases List.mem_cons.1 hc with rfl | hc
    · exact .inr (Nat.le_of_succ_le he.1)
    · exact ih hc

theorem isBoundary_of_mem_rawBoundaries (h : c ∈ rawBoundaries) : Text.isBoundary c = true := by
  simp only [rawBoundaries, List.mem_cons, List.not_mem_nil, or_false] at h
  rcases h with rfl | rfl | rfl <;> decide

theorem le_of_mem_rawBoundaries (h : c ∈ rawBoundaries) : 127 ≤ c.toNat := by
  simp only [rawBoundaries, List.mem_cons, List.not_mem_nil, or_false] at h
  rcases h with rfl | rfl | rfl <;> decide

/-- Line feeds and carriage returns aside, the boundaries in such a text are no control
characters. -/
theorem Stands.mem_rawBoundaries (h : Stands q q' t) (hc : c ∈ t) (hnewline : c ≠ '\n')
    (hreturn : c ≠ '\r') (hboundary : Text.isBoundary c = true) : c ∈ rawBoundaries := by
  have hne : c.toNat ≠ 10 ∧ c.toNat ≠ 13 :=
    ⟨fun heq => hnewline (CodePoint.toNat_inj.1 heq),
      fun heq => hreturn (CodePoint.toNat_inj.1 heq)⟩
  have hlarge : 32 ≤ c.toNat := by
    rcases h.isGap_or_of_mem hc with hgap | hlarge
    · simp only [isGap, Bool.or_eq_true, beq_iff_eq] at hgap
      rcases hgap with ((rfl | rfl) | rfl) | rfl
      · decide
      · exact absurd hboundary (by decide)
      · exact absurd rfl hnewline
      · exact absurd rfl hreturn
    · exact hlarge
  have hnumber : c.toNat = 0x85 ∨ c.toNat = 0x2028 ∨ c.toNat = 0x2029 := by
    simp only [Text.isBoundary, Bool.or_eq_true, Bool.and_eq_true, decide_eq_true_eq, beq_iff_eq]
      at hboundary
    omega
  have hinj : ∀ d : CodePoint, c.toNat = d.toNat → c = d := fun d => CodePoint.toNat_inj.1
  simp only [rawBoundaries, List.mem_cons, List.not_mem_nil, or_false]
  exact hnumber.imp (hinj _) (Or.imp (hinj _) (hinj _))

/-- Such a text is one line, or it is cut inside of strings: then its first piece ends there, and
all others begin there. -/
theorem Stands.pieces (h : Stands q q' t) (hnewline : .char '\n' ∉ t) (hreturn : .char '\r' ∉ t) :
    Text.Unbroken t ∨
      ∃ first rest, Text.splitLines (t ++ [.char '\n']) = first :: rest ∧ Stands q true first ∧
        ∀ piece ∈ rest, ∃ q', Stands true q' piece := by
  -- the induction is on the length: the text behind the first boundary is shorter
  induction hlength : t.length using Nat.strongRecOn generalizing t q with
  | _ n ih =>
    rcases Text.cut t with hwhole | ⟨u, b, r, rfl, hu, hb⟩
    · exact .inl hwhole
    · have hmem : b ∈ u ++ b :: r := List.mem_append_right u List.mem_cons_self
      have hne : b ≠ '\r' := ne_of_mem_of_not_mem hmem hreturn
      have hraw := h.mem_rawBoundaries hmem (ne_of_mem_of_not_mem hmem hnewline) hne hb
      obtain ⟨hfirst, hrest⟩ := split (le_of_mem_rawBoundaries hraw) u h
      have hsub : ∀ c ∈ r, c ∈ u ++ b :: r := fun c hc =>
        List.mem_append_right u (List.mem_cons_of_mem b hc)
      have hshorter : r.length < n := by
        rw [← hlength, List.length_append, List.length_cons]
        omega
      refine .inr ⟨u, Text.splitLines (r ++ [.char '\n']), ?_, hfirst, ?_⟩
      · rw [List.append_assoc, List.cons_append, Text.splitLines_append_boundary hu hb hne]
      · rcases ih r.length hshorter hrest (fun hc => hnewline (hsub _ hc))
          (fun hc => hreturn (hsub _ hc)) rfl with hwhole | ⟨first, rest, hsplit, hstands, hpieces⟩
        · rw [Text.splitLines_append_boundary hwhole (by decide) (by decide)]
          exact List.forall_mem_singleton.2 ⟨q', hrest⟩
        · rw [hsplit]
          exact List.forall_mem_cons.2 ⟨⟨true, hstands⟩, hpieces⟩

/-- A line that holds no such boundary is not cut. -/
theorem SpellsLine.unbroken {v : Json} (h : SpellsLine v t) (hwhole : ¬ HoldsBoundary t) :
    Text.Unbroken t := by
  intro c hc
  rw [Bool.eq_false_iff]
  intro hboundary
  have hraw := h.spells.stands.mem_rawBoundaries hc (ne_of_mem_of_not_mem hc h.newline)
    (ne_of_mem_of_not_mem hc h.carriageReturn) hboundary
  exact hwhole ⟨c, hc, hraw⟩

/-! ## Strings with few escapes -/

theorem isGraphic_of_mem_writtenUnit {n : Nat} (h : n < 0x10000) (hc : c ∈ writtenUnit n) :
    IsGraphic c := by
  obtain ⟨a, b, c', d, hwritten, hunit⟩ := writtenUnit_eq h
  simp only [unit?, Option.bind_eq_bind, Option.bind_eq_some_iff, Option.pure_def] at hunit
  obtain ⟨_, ha, _, hb, _, hc', _, hd, -⟩ := hunit
  rw [hwritten] at hc
  simp only [List.mem_cons, List.not_mem_nil, or_false] at hc
  rcases hc with rfl | rfl | rfl | rfl | rfl | rfl
  · decide
  · decide
  · exact (isGraphic_of_hexValue? ha).1
  · exact (isGraphic_of_hexValue? hb).1
  · exact (isGraphic_of_hexValue? hc').1
  · exact (isGraphic_of_hexValue? hd).1

theorem toNat_lt_of_escaped? {e : CodePoint} (h : escaped? e = some c) : c.toNat < 127 := by
  unfold escaped? at h
  split at h
  · rename_i hself
    obtain rfl := Option.some.inj h
    simp only [Bool.or_eq_true, decide_eq_true_eq] at hself
    rcases hself with (rfl | rfl) | rfl <;> decide
  · repeat' split at h
    all_goals first
      | obtain rfl := Option.some.inj h
        decide
      | cases h

/-- Beyond ASCII, a writer with few escapes writes what is there. -/
theorem mem_rawChar {d : CodePoint} (hc : 127 ≤ c.toNat) : c ∈ rawChar d ↔ c = d := by
  have hnot : ∀ {e : CodePoint}, e.toNat < 127 → c ≠ e := by
    rintro e he rfl
    omega
  cases writesRaw d with
  | plain _ _ _ h => rw [h, List.mem_singleton]
  | short e _ he h =>
    rw [h, iff_false_right (hnot (toNat_lt_of_escaped? he))]
    simp [hnot (show (CodePoint.char '\\').toNat < 127 by decide),
      hnot (isGraphic_of_escaped? he).2]
  | unit hn h =>
    rw [h, iff_false_right (hnot (by omega))]
    intro hmem
    exact hnot (isGraphic_of_mem_writtenUnit (by omega) hmem).2 rfl

/-- A text without control characters. -/
def Printed (t : Text) : Prop :=
  ∀ c ∈ t, 32 ≤ c.toNat

theorem Printed.cons (hc : 32 ≤ c.toNat) (ht : Printed t) : Printed (c :: t) :=
  List.forall_mem_cons.2 ⟨hc, ht⟩

theorem Printed.append {a b : Text} (ha : Printed a) (hb : Printed b) : Printed (a ++ b) :=
  List.forall_mem_append.2 ⟨ha, hb⟩

theorem printed_singleton (hc : 32 ≤ c.toNat) : Printed [c] :=
  fun _ hd => List.mem_singleton.1 hd ▸ hc

theorem printed_rawChar (d : CodePoint) : Printed (rawChar d) := by
  cases writesRaw d with
  | plain _ _ hcontrol h =>
    rw [h]
    exact printed_singleton hcontrol
  | short e _ he h =>
    rw [h]
    exact .cons (by decide) (printed_singleton (Nat.le_of_succ_le (isGraphic_of_escaped? he).1))
  | unit hn h =>
    rw [h]
    exact fun c hc => Nat.le_of_succ_le (isGraphic_of_mem_writtenUnit (by omega) hc).1

theorem printed_rawWritten (s : Text) : Printed (rawWritten s) := by
  intro c hc
  obtain ⟨d, -, hc⟩ := List.mem_flatMap.1 hc
  exact printed_rawChar d c hc

theorem mem_rawWritten {s : Text} (hc : 127 ≤ c.toNat) : c ∈ rawWritten s ↔ c ∈ s := by
  simp [rawWritten, mem_rawChar hc]

/-- **A boundary in a string is written as it is** by a writer with few escapes. -/
theorem holdsBoundary_rawWritten {s : Text} : HoldsBoundary (rawWritten s) ↔ HoldsBoundary s :=
  exists_congr fun _ => and_congr_left fun hraw => mem_rawWritten (le_of_mem_rawBoundaries hraw)

theorem holdsBoundary_append {a b : Text} :
    HoldsBoundary (a ++ b) ↔ HoldsBoundary a ∨ HoldsBoundary b := by
  simp [HoldsBoundary, or_and_right, exists_or]

theorem holdsBoundary_cons (hc : c ∉ rawBoundaries) :
    HoldsBoundary (c :: t) ↔ HoldsBoundary t := by
  simp [HoldsBoundary, hc]

/-- A string value, for a writer with few escapes. -/
def rawString (s : Text) : Text :=
  .char '"' :: (rawWritten s ++ [.char '"'])

theorem spells_rawString {depth : Nat} (s : Text) : Spells depth (.str s) (rawString s) :=
  .str (stringRest_rawWritten s)

theorem printed_rawString (s : Text) : Printed (rawString s) :=
  .cons (by decide) ((printed_rawWritten s).append (printed_singleton (by decide)))

theorem holdsBoundary_rawString {s : Text} : HoldsBoundary (rawString s) ↔ HoldsBoundary s := by
  rw [rawString, holdsBoundary_cons (by decide), holdsBoundary_append, holdsBoundary_rawWritten,
    or_iff_left (by decide)]

/-- A field, for such a writer, whose value has the text `t`. -/
def rawField (name t : Text) : Text :=
  .char '"' :: (rawWritten name ++ .char '"' :: .char ':' :: t)

theorem printed_rawField (name : Text) (ht : Printed t) : Printed (rawField name t) :=
  .cons (by decide) ((printed_rawWritten name).append (.cons (by decide) (.cons (by decide) ht)))

theorem holdsBoundary_rawField {name : Text} :
    HoldsBoundary (rawField name t) ↔ HoldsBoundary name ∨ HoldsBoundary t := by
  rw [rawField, holdsBoundary_cons (by decide), holdsBoundary_append, holdsBoundary_rawWritten,
    holdsBoundary_cons (by decide), holdsBoundary_cons (by decide)]

/-- The fields of an object up to the closing brace, each with its value and the text of that. -/
def rawFields : List (Text × Json × Text) → Text
  | [] => [.char '\x7d']
  | [(name, _, t)] => rawField name t ++ [.char '\x7d']
  | (name, _, t) :: field :: fields => rawField name t ++ .char ',' :: rawFields (field :: fields)

theorem printed_rawFields {fields : List (Text × Json × Text)}
    (h : ∀ field ∈ fields, Printed field.2.2) : Printed (rawFields fields) := by
  have hclosed : Printed [.char '\x7d'] := printed_singleton (by decide)
  fun_induction rawFields fields with
  | case1 => exact hclosed
  | case2 name v t => exact (printed_rawField name (h _ List.mem_cons_self)).append hclosed
  | case3 name v t field fields ih =>
    obtain ⟨hfirst, hrest⟩ := List.forall_mem_cons.1 h
    exact (printed_rawField name hfirst).append (.cons (by decide) (ih hrest))

theorem holdsBoundary_rawFields {fields : List (Text × Json × Text)} :
    HoldsBoundary (rawFields fields) ↔
      ∃ field ∈ fields, HoldsBoundary field.1 ∨ HoldsBoundary field.2.2 := by
  fun_induction rawFields fields with
  | case1 => exact iff_of_false (by decide) (by simp)
  | case2 name v t =>
    rw [holdsBoundary_append, holdsBoundary_rawField, or_iff_left (by decide)]
    simp
  | case3 name v t field fields ih =>
    rw [holdsBoundary_append, holdsBoundary_rawField, holdsBoundary_cons (by decide), ih]
    simp only [List.exists_mem_cons_iff]

/-- The fields of an object with further ones put to them. -/
def putFields (before : List (Text × Json)) (fields : List (Text × Json × Text)) :
    List (Text × Json) :=
  fields.foldl (fun before field => putField field.1 field.2.1 before) before

theorem spellsFields_rawFields {depth : Nat} {before : List (Text × Json)}
    {fields : List (Text × Json × Text)} (hne : fields ≠ [])
    (h : ∀ field ∈ fields, Spells depth field.2.1 field.2.2) :
    SpellsFields depth before (putFields before fields) (rawFields fields) := by
  fun_induction rawFields fields generalizing before with
  | case1 => exact absurd rfl hne
  | case2 name v t =>
    rw [rawField, List.cons_append, List.append_assoc]
    exact .last (stringRest_rawWritten name) gap_nil gap_nil (h _ List.mem_cons_self) gap_nil
  | case3 name v t field fields ih =>
    obtain ⟨hfirst, hrest⟩ := List.forall_mem_cons.1 h
    rw [rawField, List.cons_append, List.append_assoc]
    exact .more (stringRest_rawWritten name) gap_nil gap_nil hfirst gap_nil gap_nil
      (ih (List.cons_ne_nil _ _) hrest)

/-- An object, for such a writer. -/
def rawObject (fields : List (Text × Json × Text)) : Text :=
  .char '\x7b' :: rawFields fields

theorem spells_rawObject {depth : Nat} {fields : List (Text × Json × Text)} (hne : fields ≠ [])
    (h : ∀ field ∈ fields, Spells depth field.2.1 field.2.2) :
    Spells (depth + 1) (.obj (putFields [] fields)) (rawObject fields) :=
  .obj gap_nil (spellsFields_rawFields hne h)

theorem holdsBoundary_rawObject {fields : List (Text × Json × Text)} :
    HoldsBoundary (rawObject fields) ↔
      ∃ field ∈ fields, HoldsBoundary field.1 ∨ HoldsBoundary field.2.2 := by
  rw [rawObject, holdsBoundary_cons (by decide), holdsBoundary_rawFields]

theorem printed_rawObject {fields : List (Text × Json × Text)}
    (h : ∀ field ∈ fields, Printed field.2.2) : Printed (rawObject fields) :=
  .cons (by decide) (printed_rawFields h)

/-- A spelling without control characters is on one line. -/
theorem Spells.spellsLine {v : Json} (h : Spells maxDepth v t) (hprinted : Printed t) :
    SpellsLine v t where
  spells := h
  newline hmem := absurd (hprinted _ hmem) (by decide)
  carriageReturn hmem := absurd (hprinted _ hmem) (by decide)

/-! ## The ends of a spelling -/

/-- A text whose last code point is graphic. -/
def EndsGraphic (t : Text) : Prop :=
  ∃ r c, t = r ++ [c] ∧ IsGraphic c

theorem endsGraphic_singleton (hc : IsGraphic c) : EndsGraphic [c] :=
  ⟨[], c, rfl, hc⟩

theorem EndsGraphic.append (h : EndsGraphic t) (a : Text) : EndsGraphic (a ++ t) := by
  obtain ⟨r, c, rfl, hc⟩ := h
  exact ⟨a ++ r, c, (List.append_assoc _ _ _).symm, hc⟩

theorem EndsGraphic.cons (h : EndsGraphic t) (c : CodePoint) : EndsGraphic (c :: t) :=
  h.append [c]

/-- What a field begins with is of no account for its end. -/
theorem EndsGraphic.field (h : EndsGraphic t) (n gap₁ gap₂ u : Text) :
    EndsGraphic (.char '"' :: (n ++ .char '"' :: (gap₁ ++ .char ':' :: (gap₂ ++ (u ++ t))))) :=
  ((((((h.append u).append gap₂).cons _).append gap₁).cons _).append n).cons _

theorem SpellsAtom.endsGraphic {v : Json} (h : SpellsAtom v t) : EndsGraphic t := by
  obtain ⟨c, r, rfl, -⟩ := h.starts
  have hlast := List.dropLast_append_getLast (List.cons_ne_nil c r)
  exact ⟨_, _, hlast.symm, (h.isWord.1 _ (List.getLast_mem _)).2⟩

mutual

/-- A spelling ends with a quote, a bracket, a brace or the end of a word or number. -/
theorem Spells.endsGraphic {depth : Nat} {v : Json} {t : Text} (h : Spells depth v t) :
    EndsGraphic t :=
  match h with
  | .atom h => h.endsGraphic
  | .str _ => ((endsGraphic_singleton (by decide)).append _).cons _
  | .noItems _ => ((endsGraphic_singleton (by decide)).append _).cons _
  | .arr _ h => (h.endsGraphic.append _).cons _
  | .noFields _ => ((endsGraphic_singleton (by decide)).append _).cons _
  | .obj _ h => (h.endsGraphic.append _).cons _

theorem SpellsItems.endsGraphic {depth : Nat} {vs : List Json} {t : Text}
    (h : SpellsItems depth vs t) : EndsGraphic t :=
  match h with
  | .last _ _ => ((endsGraphic_singleton (by decide)).append _).append _
  | .more _ _ _ hmore => (((hmore.endsGraphic.append _).cons _).append _).append _

theorem SpellsFields.endsGraphic {depth : Nat} {before after : List (Text × Json)} {t : Text}
    (h : SpellsFields depth before after t) : EndsGraphic t :=
  match h with
  | .last _ _ _ _ _ => ((endsGraphic_singleton (by decide)).append _).field _ _ _ _
  | .more _ _ _ _ _ _ hmore => (((hmore.endsGraphic.append _).cons _).append _).field _ _ _ _

end

theorem not_isGraphic_of_isBlank (h : Text.isBlank c = true) : ¬ IsGraphic c := by
  simp only [Text.isBlank, Text.isSeparator, Text.isSpace, Bool.or_eq_true, Bool.and_eq_true,
    decide_eq_true_eq, beq_iff_eq] at h
  rw [IsGraphic]
  omega

theorem isBlank_of_isGraphic (h : IsGraphic c) : Text.isBlank c = false :=
  Bool.eq_false_iff.2 fun hblank => not_isGraphic_of_isBlank hblank h

/-- A spelling begins and ends with other code points than blanks. -/
theorem Spells.trim_eq {depth : Nat} {v : Json} (h : Spells depth v t) : Text.trim t = t := by
  apply Text.trim_eq_self
  · intro c hc
    obtain ⟨d, r, rfl, hgap, -⟩ := h.starts
    obtain rfl := Option.some.inj hc
    cases h.stands with
    | quote => rfl
    | token htoken =>
      rcases htoken.1 with hgap' | hgraphic
      · exact absurd hgap' (Bool.eq_false_iff.1 hgap)
      · exact isBlank_of_isGraphic hgraphic
  · intro c hc
    obtain ⟨r, d, rfl, hgraphic⟩ := h.endsGraphic
    rw [List.getLast?_append, List.getLast?_singleton] at hc
    obtain rfl := Option.some.inj hc
    exact isBlank_of_isGraphic hgraphic

/-- Trimming a text does not change its sides. -/
theorem Stands.trim (h : Stands q q' t) : Stands q q' (Text.trim t) := by
  obtain ⟨front, back, htext, hfront, hback⟩ := Text.exists_trim t
  rw [htext] at h
  have hplain : ∀ c ∈ front, c ≠ '"' ∧ c ≠ '\\' := fun c hc => by
    have hblank := hfront c hc
    constructor <;>
    · rintro rfl
      cases hblank
  have hright : Stands q q' (front ++ Text.trim t) :=
    Stands.left (fun c hc => not_isGraphic_of_isBlank (hback c hc)) _ h
  exact hright.drop hplain

end Json

end ProjectAudit
