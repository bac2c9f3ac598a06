import ProjectAudit.Proofs.Run.Faulting
import ProjectAudit.Proofs.Text.Utf8

/-!
# Decoding in blocks

A file that is read as text hands over its bytes in blocks, and a block may end inside of a
character.  The bytes of such a character are kept until the next block, in front of which they are
decoded.  Where the cuts are is of no account: the characters are those that were encoded.

What carries the proof from block to block is that the bytes which are kept, and those which are
still to come, encode the rest of the characters.  A block takes some characters off this rest, and
keeps at most the beginning of the next one, which by itself is a run that the end of the bytes has
cut short.

* `pieces_of_cut_form`: the beginning of a character is a run that is cut short.
* `partialText_of_prefix`: what one block is decoded to.
* `decodeBlocks_encode`: encoded characters are read back from blocks.
* `exists_of_decodeBlocks`: nothing but characters is read from blocks.
-/

namespace ProjectAudit.Text.Utf8

/-! ## Characters that are cut -/

theorem Form.length_le {n : Nat} {bytes : List UInt8} (h : Form n bytes) : bytes.length ≤ 4 := by
  cases h <;> simp

/-- **The beginning of a character** is one run, which is cut short. -/
theorem pieces_of_cut_form {n : Nat} {p q : List UInt8} (h : Form n (p ++ q)) (hp : p ≠ [])
    (hq : q ≠ []) : pieces p = [.bad p .truncated] := by
  rcases p with _ | ⟨b₀, _ | ⟨b₁, _ | ⟨b₂, _ | ⟨b₃, p⟩⟩⟩⟩
  · exact absurd rfl hp
  · -- only a form of one byte ends here, and then nothing follows
    simp only [List.cons_append, List.nil_append] at h
    cases h with
    | one h => exact absurd rfl hq
    | two h₀ h₁ => rw [pieces, if_neg (by omega), lead?_two h₀]
    | three h₀ => rw [pieces, if_neg (by omega), lead?_three h₀]
    | four h₀ => rw [pieces, if_neg (by omega), lead?_four h₀]
  · simp only [List.cons_append, List.nil_append] at h
    cases h with
    | two h₀ h₁ => exact absurd rfl hq
    | three h₀ h₁ hleast hgreatest h₂ =>
      rw [pieces, if_neg (by omega), lead?_three h₀]
      dsimp only
      rw [if_pos (by simpa using bounds_of_tail h₁ hleast hgreatest), if_neg (by decide)]
    | four h₀ h₁ hleast hgreatest h₂ h₃ =>
      rw [pieces, if_neg (by omega), lead?_four h₀]
      dsimp only
      rw [if_pos (by simpa using bounds_of_tail h₁ hleast hgreatest), if_neg (by decide)]
  · simp only [List.cons_append, List.nil_append] at h
    cases h with
    | three h₀ h₁ hleast hgreatest h₂ => exact absurd rfl hq
    | four h₀ h₁ hleast hgreatest h₂ h₃ =>
      rw [pieces, if_neg (by omega), lead?_four h₀]
      dsimp only
      rw [if_pos (by simpa using bounds_of_tail h₁ hleast hgreatest), if_neg (by decide),
        if_pos (isTail_of_bounds h₂), if_neg (by decide)]
  · have hlength := h.length_le
    have hpositive := List.length_pos_iff.2 hq
    simp only [List.length_append, List.length_cons] at hlength
    omega

theorem partialText_of_cut {p : List UInt8} (hpieces : pieces p = [.bad p .truncated])
    (position : Nat) : partialText position (pieces p) = .ok ([], p) := by
  rw [hpieces]
  rfl

/-! ## Blocks -/

/-- **What one block is decoded to.**  Of characters whose bytes begin with the block, it holds the
first ones; the bytes that are left of it, and those behind it, encode the others. -/
theorem partialText_of_prefix {s : List Char} {p more : List UInt8} (h : p ++ more = encode s) :
    ∃ s₁ s₂ rest, s = s₁ ++ s₂ ∧ rest ++ more = encode s₂ ∧
      ∀ position, partialText position (pieces p) = .ok (s₁.map .char, rest) := by
  induction s generalizing p with
  | nil =>
    obtain ⟨rfl, rfl⟩ := List.append_eq_nil_iff.1 h
    exact ⟨[], [], [], rfl, rfl, fun _ => rfl⟩
  | cons c s ih =>
    -- the block ends at the end of the character, or behind it
    have hbehind (p' : List UInt8) (hp : p = String.utf8EncodeChar c ++ p')
        (hrest : p' ++ more = encode s) :
        ∃ s₁ s₂ rest, c :: s = s₁ ++ s₂ ∧ rest ++ more = encode s₂ ∧
          ∀ position, partialText position (pieces p) = .ok (s₁.map .char, rest) := by
      obtain ⟨s₁, s₂, rest, rfl, hencode, hpartial⟩ := ih hrest
      refine ⟨c :: s₁, s₂, rest, rfl, hencode, fun position => ?_⟩
      rw [hp, pieces_utf8EncodeChar_append, partialText, hpartial]
      rfl
    rw [encode, List.flatMap_cons] at h
    rcases List.append_eq_append_iff.1 h with ⟨q, hchar, hmore⟩ | ⟨p', hp, hrest⟩
    · by_cases hpempty : p = []
      · refine ⟨[], c :: s, [], rfl, ?_, fun position => by rw [hpempty]; rfl⟩
        rw [hpempty] at h
        rw [encode, List.flatMap_cons, ← h]
      by_cases hqempty : q = []
      · rw [hqempty, List.append_nil] at hchar
        exact hbehind [] (by rw [hchar, List.append_nil]) (by rw [hmore, hqempty]; rfl)
      refine ⟨[], c :: s, p, rfl, h, fun position => partialText_of_cut ?_ position⟩
      exact pieces_of_cut_form (hchar ▸ form_utf8EncodeChar c) hpempty hqempty
    · exact hbehind p' hp hrest.symm

/-- However encoded characters are cut into blocks, they are read back. -/
theorem decodeBlockList_of_flatten (blocks : List (List UInt8)) {undecoded : List UInt8}
    {s : List Char} (h : undecoded ++ blocks.flatten = encode s) :
    decodeBlockList undecoded blocks = .ok (s.map .char) := by
  induction blocks generalizing undecoded s with
  | nil =>
    rw [List.flatten_nil, List.append_nil] at h
    rw [decodeBlockList, h, decode_encode]
  | cons block blocks ih =>
    rw [List.flatten_cons, ← List.append_assoc] at h
    obtain ⟨s₁, s₂, rest, rfl, hencode, hpartial⟩ := partialText_of_prefix h
    rw [decodeBlockList, hpartial]
    show (fun t => s₁.map CodePoint.char ++ t) <$> decodeBlockList rest blocks = _
    rw [ih hencode, List.map_append]
    rfl

/-- What is read of bytes are characters. -/
theorem exists_of_textOf {position : Nat} {ps : List Piece} {t : Text}
    (h : textOf position ps = .ok t) : ∃ s : List Char, t = s.map .char := by
  induction ps generalizing position t with
  | nil => exact ⟨[], (Except.ok.inj h).symm⟩
  | cons piece ps ih =>
    cases piece with
    | char c =>
      obtain ⟨rest, hrest, rfl⟩ := map_eq_ok.1 h
      obtain ⟨s, rfl⟩ := ih hrest
      exact ⟨c :: s, rfl⟩
    | bad bytes flaw => cases h

theorem exists_of_partialText {position : Nat} {ps : List Piece} {t : Text} {rest : List UInt8}
    (h : partialText position ps = .ok (t, rest)) : ∃ s : List Char, t = s.map .char := by
  induction ps generalizing position t with
  | nil =>
    obtain ⟨rfl, -⟩ := Prod.mk.inj (Except.ok.inj h)
    exact ⟨[], rfl⟩
  | cons piece ps ih =>
    cases piece with
    | char c =>
      obtain ⟨⟨t', rest'⟩, hrest, heq⟩ := map_eq_ok.1 h
      obtain ⟨rfl, rfl⟩ := Prod.mk.inj heq
      obtain ⟨s, rfl⟩ := ih hrest
      exact ⟨c :: s, rfl⟩
    | bad bytes flaw =>
      rw [partialText] at h
      split at h
      · obtain ⟨rfl, -⟩ := Prod.mk.inj (Except.ok.inj h)
        exact ⟨[], rfl⟩
      · cases h

theorem exists_of_decodeBlockList {blocks : List (List UInt8)} {undecoded : List UInt8} {t : Text}
    (h : decodeBlockList undecoded blocks = .ok t) : ∃ s : List Char, t = s.map .char := by
  induction blocks generalizing undecoded t with
  | nil => exact exists_of_textOf h
  | cons block blocks ih =>
    obtain ⟨⟨first, rest⟩, hfirst, h⟩ := bind_eq_ok.1 h
    obtain ⟨more, hmore, rfl⟩ := map_eq_ok.1 h
    obtain ⟨s, rfl⟩ := exists_of_partialText hfirst
    obtain ⟨s', rfl⟩ := ih hmore
    exact ⟨s ++ s', List.map_append.symm⟩

/-- The blocks of bytes are all of them, in order. -/
theorem flatten_blocksOf {size fuel : Nat} (hsize : 0 < size) {bytes : List UInt8}
    (hfuel : bytes.length ≤ fuel) : (blocksOf size fuel bytes).flatten = bytes := by
  induction fuel generalizing bytes with
  | zero => rw [List.length_eq_zero_iff.1 (Nat.le_zero.1 hfuel)]; rfl
  | succ fuel ih =>
    rw [blocksOf]
    cases bytes with
    | nil => rfl
    | cons b bytes =>
      have hrest : ((b :: bytes).drop size).length ≤ fuel := by
        rw [List.length_drop]
        simp only [List.length_cons] at hfuel ⊢
        omega
      rw [if_neg (by simp), List.flatten_cons, ih hrest, List.take_append_drop]

/-- **Characters are read back** from the blocks of their bytes. -/
theorem decodeBlocks_encode (s : List Char) : decodeBlocks (encode s) = .ok (s.map .char) :=
  decodeBlockList_of_flatten _ (flatten_blocksOf (by decide) (Nat.le_refl _))

/-- **What is read from blocks of bytes** are characters, without surrogates. -/
theorem exists_of_decodeBlocks {bytes : List UInt8} {t : Text} (h : decodeBlocks bytes = .ok t) :
    ∃ s : String, t = ofString s := by
  obtain ⟨s, rfl⟩ := exists_of_decodeBlockList h
  exact ⟨String.ofList s, by rw [ofString, String.toList_ofList]⟩

/-- A text is read back from the blocks of its bytes. -/
theorem decodeBlocks_encodeString (s : String) : decodeBlocks (encodeString s) = .ok (ofString s) :=
  decodeBlocks_encode s.toList

end ProjectAudit.Text.Utf8
