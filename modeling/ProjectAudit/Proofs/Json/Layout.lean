import ProjectAudit.Json.Printer
import ProjectAudit.Proofs.Json.Spelling
import ProjectAudit.Proofs.Json.Strings

/-!
# Indented values are read back

What the indented layout writes is a spelling in the sense of `Json.Spells`: the blanks between the
tokens are the new lines and the columns in front of them.  So the reader reads it, and what it
reads is `Json.readBack` of what was written.  Reading is not quite the identity: two halves of a
surrogate pair that stand side by side come back as one character, and of fields with one name the
last one counts.

Integers beyond the reader's bound and values nested beyond its depth are written and cannot be
read.  `Json.Fits` leaves these out, and numbers with a fraction or an exponent.

* `Json.spells_indentedAt`: the indented layout of a value spells it.
* `Json.read_indented`: it is read back.
-/

namespace ProjectAudit

namespace Json

/-! ## What is read back -/

mutual

/-- What is read of a value that was written. -/
def readBack : Json → Json
  | .str s => .str s.fused
  | .arr vs => .arr (readBackItems vs)
  | .obj fs => .obj (readBackFields [] fs)
  | v => v

/-- What is read of the items of a list. -/
def readBackItems : List Json → List Json
  | [] => []
  | v :: vs => readBack v :: readBackItems vs

/-- What is read of the fields of an object, of which some have been read before. -/
def readBackFields (before : List (Text × Json)) : List (Text × Json) → List (Text × Json)
  | [] => before
  | (name, v) :: fs => readBackFields (putField name.fused (readBack v) before) fs

end

theorem readBackItems_eq_map (vs : List Json) : readBackItems vs = vs.map readBack := by
  induction vs with
  | nil => rfl
  | cons v vs ih => rw [readBackItems, ih, List.map_cons]

/-- The reader can take in the value: its integers are within the bound of digits, there is no
number with a fraction or an exponent, and lists and objects are nested at most `depth` deep. -/
inductive Fits : (depth : Nat) → Json → Prop
  | null {depth : Nat} : Fits depth .null
  | bool {depth : Nat} (b : Bool) : Fits depth (.bool b)
  | int {depth : Nat} {n : Int} (h : Text.isWritable n.natAbs = true) : Fits depth (.int n)
  | str {depth : Nat} (s : Text) : Fits depth (.str s)
  | arr {depth : Nat} {vs : List Json} (h : ∀ v ∈ vs, Fits depth v) : Fits (depth + 1) (.arr vs)
  | obj {depth : Nat} {fs : List (Text × Json)} (h : ∀ f ∈ fs, Fits depth f.2) :
    Fits (depth + 1) (.obj fs)

/-! ## Tokens -/

theorem gap_newLine (d : Nat) : Gap (Text.ofString (newLine d)) := by
  intro c hc
  rw [newLine, Text.ofString, String.toList_ofList, List.map_cons, List.map_replicate] at hc
  rcases List.mem_cons.1 hc with rfl | hc
  · rfl
  · rw [List.eq_of_mem_replicate hc]
    rfl

theorem spellsString_written (s : Text) : SpellsString s.fused (written s) :=
  stringRest_written s

theorem startsAtom_of_isDigit {c : CodePoint} (h : c.isDigit = true) : StartsAtom c := by
  constructor
  · rw [Bool.eq_false_iff]
    intro hgap
    simp only [isGap, Bool.or_eq_true, beq_iff_eq] at hgap
    rcases hgap with ((rfl | rfl) | rfl) | rfl <;> exact absurd h (by decide)
  · intro hmem
    simp only [List.mem_cons, List.not_mem_nil, or_false] at hmem
    rcases hmem with rfl | rfl | rfl | rfl | rfl <;> exact absurd h (by decide)

theorem spellsAtom_int {n : Int} (h : Text.isWritable n.natAbs = true) :
    SpellsAtom (.int n) (Text.ofString (toString n)) where
  starts := by
    cases n with
    | ofNat n =>
      obtain ⟨d, ds, hdigits⟩ := List.exists_cons_of_ne_nil (Text.digitsOf_ne_nil n)
      have hd : d.isDigit = true :=
        Text.isDigit_of_mem_digitsOf (n := n) (hdigits ▸ List.mem_cons_self)
      exact ⟨d, ds, (Text.ofString_toString_nat n).trans hdigits, startsAtom_of_isDigit hd⟩
    | negSucc n => exact ⟨_, _, Text.ofString_toString_neg n, by decide, by decide⟩
  reads _ hrest := atom_int h hrest

/-! ## The layout -/

theorem spellsItems_indented {depth : Nat} (d : Nat) {sep : String} (hsep : Gap (Text.ofString sep))
    {gap : Text} (hgap : Gap gap) (v : Json) (vs : List Json)
    (h : ∀ u ∈ v :: vs, Spells depth u.readBack (Text.ofString (u.indentedAt d))) :
    SpellsItems depth (readBackItems (v :: vs))
      (Text.ofString (("," ++ sep).intercalate (indentedItems d (v :: vs))) ++
        (gap ++ [.char ']'])) := by
  induction vs generalizing v with
  | nil => exact .last (h v List.mem_cons_self) hgap
  | cons u vs ih =>
    have hmore := ih u fun w hw => h w (List.mem_cons_of_mem v hw)
    have htext : Text.ofString (("," ++ sep).intercalate (indentedItems d (v :: u :: vs))) =
        Text.ofString (v.indentedAt d) ++ .char ',' :: (Text.ofString sep ++
          Text.ofString (("," ++ sep).intercalate (indentedItems d (u :: vs)))) := by
      rw [indentedItems, indentedItems, String.intercalate_cons_cons, Text.ofString_append,
        Text.ofString_append, Text.ofString_append, List.append_assoc, List.append_assoc]
      rfl
    rw [htext, List.append_assoc, List.cons_append, List.append_assoc]
    exact .more (h v List.mem_cons_self) gap_nil hsep hmore

theorem ofString_field (name : Text) (t : String) :
    Text.ofString (stringLiteral name ++ ": " ++ t) =
      .char '"' :: (written name ++ .char '"' :: .char ':' :: .char ' ' :: Text.ofString t) := by
  rw [Text.ofString_append, Text.ofString_append, ofString_stringLiteral, List.append_assoc,
    List.cons_append, List.append_assoc]
  rfl

theorem gap_blank : Gap [.char ' '] := by
  intro c hc
  rw [List.mem_singleton.1 hc]
  rfl

theorem spellsFields_indented {depth : Nat} (d : Nat) {sep : String}
    (hsep : Gap (Text.ofString sep)) {gap : Text} (hgap : Gap gap)
    (before : List (Text × Json)) (f : Text × Json) (fs : List (Text × Json))
    (h : ∀ g ∈ f :: fs, Spells depth g.2.readBack (Text.ofString (g.2.indentedAt d))) :
    SpellsFields depth before (readBackFields before (f :: fs))
      (Text.ofString (("," ++ sep).intercalate (indentedFields d (f :: fs))) ++
        (gap ++ [.char '\x7d'])) := by
  induction fs generalizing f before with
  | nil =>
    obtain ⟨name, v⟩ := f
    have hlast : SpellsFields depth before (putField name.fused v.readBack before) _ :=
      .last (spellsString_written name) gap_nil gap_blank (h _ List.mem_cons_self) hgap
    rw [indentedFields, indentedFields, String.intercalate_singleton, ofString_field,
      List.cons_append, List.append_assoc]
    exact hlast
  | cons g fs ih =>
    obtain ⟨name, v⟩ := f
    have hmore := ih (putField name.fused v.readBack before) g
      fun w hw => h w (List.mem_cons_of_mem _ hw)
    have htext : Text.ofString (("," ++ sep).intercalate
          (indentedFields d ((name, v) :: g :: fs))) =
        .char '"' :: (written name ++ .char '"' :: .char ':' :: .char ' ' ::
          (Text.ofString (v.indentedAt d) ++ .char ',' :: (Text.ofString sep ++
            Text.ofString (("," ++ sep).intercalate (indentedFields d (g :: fs)))))) := by
      obtain ⟨next, u⟩ := g
      rw [indentedFields, indentedFields, String.intercalate_cons_cons, Text.ofString_append,
        Text.ofString_append _ ("," ++ sep), ofString_field, Text.ofString_append ","]
      simp only [List.cons_append, List.append_assoc]
      rfl
    have hfields : SpellsFields depth before (readBackFields before ((name, v) :: g :: fs)) _ :=
      .more (spellsString_written name) gap_nil gap_blank (h _ List.mem_cons_self) gap_nil hsep
        hmore
    rw [htext]
    simpa only [List.cons_append, List.append_assoc, List.nil_append] using hfields

theorem ofString_enclosed (opening gap content gap' closing : String) :
    Text.ofString (opening ++ gap ++ content ++ gap' ++ closing) =
      Text.ofString opening ++ (Text.ofString gap ++ (Text.ofString content ++
        (Text.ofString gap' ++ Text.ofString closing))) := by
  simp only [Text.ofString_append, List.append_assoc]

/-- **The indented layout spells what is read back**, at any column. -/
theorem spells_indentedAt {depth : Nat} {v : Json} (h : Fits depth v) (d : Nat) :
    Spells depth v.readBack (Text.ofString (v.indentedAt d)) := by
  induction h generalizing d with
  | null =>
    rw [indentedAt]
    exact .atom ⟨⟨.char 'n', _, rfl, by decide, by decide⟩, fun _ _ => rfl⟩
  | bool b =>
    cases b with
    | true =>
      rw [indentedAt]
      exact .atom ⟨⟨.char 't', _, rfl, by decide, by decide⟩, fun _ _ => rfl⟩
    | false =>
      rw [indentedAt]
      exact .atom ⟨⟨.char 'f', _, rfl, by decide, by decide⟩, fun _ _ => rfl⟩
  | int h => exact .atom (spellsAtom_int h)
  | str s =>
    rw [readBack, indentedAt, ofString_stringLiteral]
    exact .str (spellsString_written s)
  | @arr depth vs h ih =>
    cases vs with
    | nil =>
      rw [indentedAt]
      exact .noItems gap_nil
    | cons v vs =>
      have hitems := spellsItems_indented (d + 1) (gap_newLine (d + 1)) (gap_newLine d) v vs
        fun u hu => ih u hu (d + 1)
      have harr := Spells.arr (gap_newLine (d + 1)) hitems
      rw [indentedAt, ofString_enclosed]
      exact harr
  | @obj depth fs h ih =>
    cases fs with
    | nil =>
      rw [indentedAt]
      exact .noFields gap_nil
    | cons f fs =>
      have hfields := spellsFields_indented (d + 1) (gap_newLine (d + 1)) (gap_newLine d) [] f fs
        fun g hg => ih g hg (d + 1)
      have hobj := Spells.obj (gap_newLine (d + 1)) hfields
      rw [indentedAt, ofString_enclosed]
      exact hobj

/-- **What is written is read back.** -/
theorem read_indented {v : Json} (h : Fits maxDepth v) :
    read (Text.ofString v.indented) = .ok v.readBack :=
  read_of_spells (spells_indentedAt h 0)

end Json

end ProjectAudit
