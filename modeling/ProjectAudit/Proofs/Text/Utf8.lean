import ProjectAudit.Text.Utf8

/-!
# UTF-8 is read back

The bytes that encode characters are cut into these characters, whatever bytes follow.  So decoding
the bytes of a text without surrogates gives the text.

The proof goes by the number of bytes of a character.  For each number one lemma says what bytes of
that form are read as, and the bounds on the number of the character say that its bytes have the
form.

* `form_utf8EncodeChar`: the forms that the bytes of characters have.
* `pieces_encode_append`: the pieces of encoded characters.
* `decode_encodeString`: a text is read back.
* `exists_first_piece`: any bytes begin with those of a character or with a run beyond ASCII.
-/

namespace ProjectAudit.Text.Utf8

/-! ## Bytes of each form -/

theorem isTail_of_bounds {b : UInt8} (h : 0x80 ≤ b.toNat ∧ b.toNat ≤ 0xBF) : isTail b = true := by
  rw [isTail, Bool.and_eq_true, decide_eq_true_eq, decide_eq_true_eq]
  exact h

theorem lead?_two {b : UInt8} (h : 0xC2 ≤ b.toNat ∧ b.toNat ≤ 0xDF) :
    lead? b = some ⟨1, 0x80, 0xBF, b.toNat - 0xC0⟩ := by
  rw [lead?, if_pos (by simpa using h)]

theorem lead?_three {b : UInt8} (h : 0xE0 ≤ b.toNat ∧ b.toNat ≤ 0xEF) :
    lead? b = some ⟨2, if b.toNat = 0xE0 then 0xA0 else 0x80,
      if b.toNat = 0xED then 0x9F else 0xBF, b.toNat - 0xE0⟩ := by
  rw [lead?, if_neg (by simp; omega), if_pos (by simpa using h)]

theorem lead?_four {b : UInt8} (h : 0xF0 ≤ b.toNat ∧ b.toNat ≤ 0xF4) :
    lead? b = some ⟨3, if b.toNat = 0xF0 then 0x90 else 0x80,
      if b.toNat = 0xF4 then 0x8F else 0xBF, b.toNat - 0xF0⟩ := by
  rw [lead?, if_neg (by simp; omega), if_neg (by simp; omega), if_pos (by simpa using h)]

/-- The bounds of a second byte, of which the first byte makes one tighter in two cases. -/
theorem bounds_of_tail {b₀ b₁ : UInt8} {low high least greatest : Nat}
    (h₁ : 0x80 ≤ b₁.toNat ∧ b₁.toNat ≤ 0xBF) (hleast : b₀.toNat = low → least ≤ b₁.toNat)
    (hgreatest : b₀.toNat = high → b₁.toNat ≤ greatest) :
    (if b₀.toNat = low then least else 0x80) ≤ b₁.toNat ∧
      b₁.toNat ≤ (if b₀.toNat = high then greatest else 0xBF) := by
  constructor <;> split <;> omega

theorem pieces_one {b : UInt8} (h : b.toNat < 0x80) (rest : List UInt8) :
    pieces (b :: rest) = .char (Char.ofNat b.toNat) :: pieces rest := by
  rw [pieces, if_pos h]

theorem pieces_two {b₀ b₁ : UInt8} (h₀ : 0xC2 ≤ b₀.toNat ∧ b₀.toNat ≤ 0xDF)
    (h₁ : 0x80 ≤ b₁.toNat ∧ b₁.toNat ≤ 0xBF) (rest : List UInt8) :
    pieces (b₀ :: b₁ :: rest) =
      .char (Char.ofNat ((b₀.toNat - 0xC0) * 64 + (b₁.toNat - 0x80))) :: pieces rest := by
  rw [pieces, if_neg (by omega), lead?_two h₀]
  dsimp only
  rw [if_pos (by simpa using h₁), if_pos rfl]
  rfl

theorem pieces_three {b₀ b₁ b₂ : UInt8} (h₀ : 0xE0 ≤ b₀.toNat ∧ b₀.toNat ≤ 0xEF)
    (h₁ : 0x80 ≤ b₁.toNat ∧ b₁.toNat ≤ 0xBF) (hleast : b₀.toNat = 0xE0 → 0xA0 ≤ b₁.toNat)
    (hgreatest : b₀.toNat = 0xED → b₁.toNat ≤ 0x9F) (h₂ : 0x80 ≤ b₂.toNat ∧ b₂.toNat ≤ 0xBF)
    (rest : List UInt8) :
    pieces (b₀ :: b₁ :: b₂ :: rest) =
      .char (Char.ofNat
        (((b₀.toNat - 0xE0) * 64 + (b₁.toNat - 0x80)) * 64 + (b₂.toNat - 0x80))) ::
          pieces rest := by
  rw [pieces, if_neg (by omega), lead?_three h₀]
  dsimp only
  rw [if_pos (by simpa using bounds_of_tail h₁ hleast hgreatest), if_neg (by decide),
    if_pos (isTail_of_bounds h₂), if_pos rfl]
  rfl

theorem pieces_four {b₀ b₁ b₂ b₃ : UInt8} (h₀ : 0xF0 ≤ b₀.toNat ∧ b₀.toNat ≤ 0xF4)
    (h₁ : 0x80 ≤ b₁.toNat ∧ b₁.toNat ≤ 0xBF) (hleast : b₀.toNat = 0xF0 → 0x90 ≤ b₁.toNat)
    (hgreatest : b₀.toNat = 0xF4 → b₁.toNat ≤ 0x8F) (h₂ : 0x80 ≤ b₂.toNat ∧ b₂.toNat ≤ 0xBF)
    (h₃ : 0x80 ≤ b₃.toNat ∧ b₃.toNat ≤ 0xBF) (rest : List UInt8) :
    pieces (b₀ :: b₁ :: b₂ :: b₃ :: rest) =
      .char (Char.ofNat ((((b₀.toNat - 0xF0) * 64 + (b₁.toNat - 0x80)) * 64 +
        (b₂.toNat - 0x80)) * 64 + (b₃.toNat - 0x80))) :: pieces rest := by
  rw [pieces, if_neg (by omega), lead?_four h₀]
  dsimp only
  rw [if_pos (by simpa using bounds_of_tail h₁ hleast hgreatest), if_neg (by decide),
    if_pos (isTail_of_bounds h₂), if_neg (by decide), if_pos (isTail_of_bounds h₃)]
  rfl

/-! ## Characters -/

/-- The forms of the bytes of a character, with its number. -/
inductive Form : Nat → List UInt8 → Prop
  | one {b : UInt8} (h : b.toNat < 0x80) : Form b.toNat [b]
  | two {b₀ b₁ : UInt8} (h₀ : 0xC2 ≤ b₀.toNat ∧ b₀.toNat ≤ 0xDF)
    (h₁ : 0x80 ≤ b₁.toNat ∧ b₁.toNat ≤ 0xBF) :
    Form ((b₀.toNat - 0xC0) * 64 + (b₁.toNat - 0x80)) [b₀, b₁]
  | three {b₀ b₁ b₂ : UInt8} (h₀ : 0xE0 ≤ b₀.toNat ∧ b₀.toNat ≤ 0xEF)
    (h₁ : 0x80 ≤ b₁.toNat ∧ b₁.toNat ≤ 0xBF) (hleast : b₀.toNat = 0xE0 → 0xA0 ≤ b₁.toNat)
    (hgreatest : b₀.toNat = 0xED → b₁.toNat ≤ 0x9F) (h₂ : 0x80 ≤ b₂.toNat ∧ b₂.toNat ≤ 0xBF) :
    Form (((b₀.toNat - 0xE0) * 64 + (b₁.toNat - 0x80)) * 64 + (b₂.toNat - 0x80)) [b₀, b₁, b₂]
  | four {b₀ b₁ b₂ b₃ : UInt8} (h₀ : 0xF0 ≤ b₀.toNat ∧ b₀.toNat ≤ 0xF4)
    (h₁ : 0x80 ≤ b₁.toNat ∧ b₁.toNat ≤ 0xBF) (hleast : b₀.toNat = 0xF0 → 0x90 ≤ b₁.toNat)
    (hgreatest : b₀.toNat = 0xF4 → b₁.toNat ≤ 0x8F) (h₂ : 0x80 ≤ b₂.toNat ∧ b₂.toNat ≤ 0xBF)
    (h₃ : 0x80 ≤ b₃.toNat ∧ b₃.toNat ≤ 0xBF) :
    Form ((((b₀.toNat - 0xF0) * 64 + (b₁.toNat - 0x80)) * 64 + (b₂.toNat - 0x80)) * 64 +
      (b₃.toNat - 0x80)) [b₀, b₁, b₂, b₃]

/-- Bytes of one of the forms are read as the character. -/
theorem Form.pieces_append {n : Nat} {bytes : List UInt8} (h : Form n bytes) (rest : List UInt8) :
    pieces (bytes ++ rest) = .char (Char.ofNat n) :: pieces rest := by
  cases h with
  | one h => exact pieces_one h rest
  | two h₀ h₁ => exact pieces_two h₀ h₁ rest
  | three h₀ h₁ hleast hgreatest h₂ => exact pieces_three h₀ h₁ hleast hgreatest h₂ rest
  | four h₀ h₁ hleast hgreatest h₂ h₃ => exact pieces_four h₀ h₁ hleast hgreatest h₂ h₃ rest

/-- The value of a byte that is given by a number. -/
theorem toNat_ofNat_of_lt {n : Nat} (h : n < 256) : (UInt8.ofNat n).toNat = n := by
  simp [Nat.mod_eq_of_lt h]

/-- **The bytes of a character** have one of the forms. -/
theorem form_utf8EncodeChar (c : Char) : Form c.toNat (String.utf8EncodeChar c) := by
  have hvalid : c.val.toNat < 0xD800 ∨ 0xDFFF < c.val.toNat ∧ c.val.toNat < 0x110000 := c.valid
  rw [String.utf8EncodeChar]
  show Form c.val.toNat _
  generalize c.val.toNat = n at hvalid
  split
  · have h := Form.one (b := UInt8.ofNat n) (by rw [toNat_ofNat_of_lt (by omega)]; omega)
    rwa [toNat_ofNat_of_lt (by omega)] at h
  split
  · have h₀ := toNat_ofNat_of_lt (n := n / 64 % 0x20 + 0xc0) (by omega)
    have h₁ := toNat_ofNat_of_lt (n := n % 0x40 + 0x80) (by omega)
    have hnumber : (n / 64 % 0x20 + 0xc0 - 0xC0) * 64 + (n % 0x40 + 0x80 - 0x80) = n := by omega
    have h := @Form.two (UInt8.ofNat (n / 64 % 0x20 + 0xc0)) (UInt8.ofNat (n % 0x40 + 0x80))
      (by omega) (by omega)
    rwa [h₀, h₁, hnumber] at h
  split
  · have h₀ := toNat_ofNat_of_lt (n := n / 4096 % 0x10 + 0xe0) (by omega)
    have h₁ := toNat_ofNat_of_lt (n := n / 64 % 0x40 + 0x80) (by omega)
    have h₂ := toNat_ofNat_of_lt (n := n % 0x40 + 0x80) (by omega)
    have hnumber : ((n / 4096 % 0x10 + 0xe0 - 0xE0) * 64 + (n / 64 % 0x40 + 0x80 - 0x80)) * 64 +
        (n % 0x40 + 0x80 - 0x80) = n := by omega
    have h := @Form.three (UInt8.ofNat (n / 4096 % 0x10 + 0xe0))
      (UInt8.ofNat (n / 64 % 0x40 + 0x80)) (UInt8.ofNat (n % 0x40 + 0x80))
      (by omega) (by omega) (by omega) (by omega) (by omega)
    rwa [h₀, h₁, h₂, hnumber] at h
  · have h₀ := toNat_ofNat_of_lt (n := n / 262144 % 0x08 + 0xf0) (by omega)
    have h₁ := toNat_ofNat_of_lt (n := n / 4096 % 0x40 + 0x80) (by omega)
    have h₂ := toNat_ofNat_of_lt (n := n / 64 % 0x40 + 0x80) (by omega)
    have h₃ := toNat_ofNat_of_lt (n := n % 0x40 + 0x80) (by omega)
    have hnumber : (((n / 262144 % 0x08 + 0xf0 - 0xF0) * 64 +
        (n / 4096 % 0x40 + 0x80 - 0x80)) * 64 + (n / 64 % 0x40 + 0x80 - 0x80)) * 64 +
          (n % 0x40 + 0x80 - 0x80) = n := by omega
    have h := @Form.four (UInt8.ofNat (n / 262144 % 0x08 + 0xf0))
      (UInt8.ofNat (n / 4096 % 0x40 + 0x80)) (UInt8.ofNat (n / 64 % 0x40 + 0x80))
      (UInt8.ofNat (n % 0x40 + 0x80)) (by omega) (by omega) (by omega) (by omega) (by omega)
      (by omega)
    rwa [h₀, h₁, h₂, h₃, hnumber] at h

/-- The bytes of a character are read as the character. -/
theorem pieces_utf8EncodeChar_append (c : Char) (rest : List UInt8) :
    pieces (String.utf8EncodeChar c ++ rest) = .char c :: pieces rest := by
  rw [(form_utf8EncodeChar c).pieces_append, Char.ofNat_toNat]

/-- **Encoded characters are cut into these characters**, whatever follows. -/
theorem pieces_encode_append (s : List Char) (rest : List UInt8) :
    pieces (encode s ++ rest) = s.map .char ++ pieces rest := by
  induction s with
  | nil => rfl
  | cons c s ih =>
    rw [encode, List.flatMap_cons, List.append_assoc, pieces_utf8EncodeChar_append]
    exact congrArg (.char c :: ·) ih

/-! ## Texts -/

theorem textOf_map_char (s : List Char) (position : Nat) :
    textOf position (s.map .char) = .ok (s.map .char) := by
  induction s generalizing position with
  | nil => rfl
  | cons c s ih =>
    rw [List.map_cons, textOf, ih]
    rfl

theorem decode_encode (s : List Char) : decode (encode s) = .ok (s.map .char) := by
  have hpieces : pieces (encode s) = s.map .char := by
    rw [← List.append_nil (encode s), pieces_encode_append, pieces, List.append_nil]
  rw [decode, hpieces, textOf_map_char]

/-- **A text is read back** from its bytes. -/
theorem decode_encodeString (s : String) : decode (encodeString s) = .ok (ofString s) :=
  decode_encode s.toList

/-! ## Bytes are written back -/

/-- The number of a form is that of a character. -/
theorem Form.isValidChar {n : Nat} {bytes : List UInt8} (h : Form n bytes) : n.isValidChar := by
  cases h with
  | one h => exact .inl (by omega)
  | two h₀ h₁ => exact .inl (by omega)
  | three h₀ h₁ hleast hgreatest h₂ =>
    simp only [Nat.isValidChar]
    omega
  | four h₀ h₁ hleast hgreatest h₂ h₃ =>
    simp only [Nat.isValidChar]
    omega

/-- A number has one form. -/
theorem Form.unique {n m : Nat} {bytes bytes' : List UInt8} (h : Form n bytes)
    (h' : Form m bytes') (hnumber : n = m) : bytes = bytes' := by
  -- The ranges of the four forms do not meet, and within one the bytes are digits of the number.
  have heq : ∀ {a b : UInt8}, a.toNat = b.toNat → a = b := fun hab => UInt8.toNat_inj.1 hab
  cases h <;> cases h' <;> try omega
  case one.one => exact congrArg (fun a => [a]) (heq hnumber)
  case two.two a₀ a₁ _ _ b₀ b₁ _ _ =>
    obtain rfl : a₀ = b₀ := heq (by omega)
    obtain rfl : a₁ = b₁ := heq (by omega)
    rfl
  case three.three a₀ a₁ a₂ _ _ _ _ _ b₀ b₁ b₂ _ _ _ _ _ =>
    obtain rfl : a₀ = b₀ := heq (by omega)
    obtain rfl : a₁ = b₁ := heq (by omega)
    obtain rfl : a₂ = b₂ := heq (by omega)
    rfl
  case four.four a₀ a₁ a₂ a₃ _ _ _ _ _ _ b₀ b₁ b₂ b₃ _ _ _ _ _ _ =>
    obtain rfl : a₀ = b₀ := heq (by omega)
    obtain rfl : a₁ = b₁ := heq (by omega)
    obtain rfl : a₂ = b₂ := heq (by omega)
    obtain rfl : a₃ = b₃ := heq (by omega)
    rfl

/-- The bytes of a form are those of the character that they are read as. -/
theorem Form.utf8EncodeChar_ofNat {n : Nat} {bytes : List UInt8} (h : Form n bytes) :
    String.utf8EncodeChar (Char.ofNat n) = bytes := by
  have hnumber : (Char.ofNat n).toNat = n := by
    rw [Char.ofNat, dif_pos h.isValidChar]
    rfl
  exact (form_utf8EncodeChar (Char.ofNat n)).unique h hnumber

/-! ## The first piece -/

/-- What the first byte of two or more announces. -/
theorem lead?_cases {b : UInt8} {l : Lead} (h : lead? b = some l) :
    ((0xC2 ≤ b.toNat ∧ b.toNat ≤ 0xDF) ∧ l = ⟨1, 0x80, 0xBF, b.toNat - 0xC0⟩) ∨
      ((0xE0 ≤ b.toNat ∧ b.toNat ≤ 0xEF) ∧ l = ⟨2, if b.toNat = 0xE0 then 0xA0 else 0x80,
        if b.toNat = 0xED then 0x9F else 0xBF, b.toNat - 0xE0⟩) ∨
      ((0xF0 ≤ b.toNat ∧ b.toNat ≤ 0xF4) ∧ l = ⟨3, if b.toNat = 0xF0 then 0x90 else 0x80,
        if b.toNat = 0xF4 then 0x8F else 0xBF, b.toNat - 0xF0⟩) := by
  rw [lead?] at h
  split at h
  · rename_i hrange
    exact .inl ⟨by simpa using hrange, (Option.some.inj h).symm⟩
  split at h
  · rename_i hrange
    exact .inr (.inl ⟨by simpa using hrange, (Option.some.inj h).symm⟩)
  split at h
  · rename_i hrange
    exact .inr (.inr ⟨by simpa using hrange, (Option.some.inj h).symm⟩)
  · cases h

/-- A second byte within its bounds continues a character, and keeps to those that are tighter. -/
theorem tail_of_bounds {b₀ b₁ : UInt8} {low high least greatest : Nat} (hleast : 0x80 ≤ least)
    (hgreatest : greatest ≤ 0xBF)
    (h : (if b₀.toNat = low then least else 0x80) ≤ b₁.toNat ∧
      b₁.toNat ≤ (if b₀.toNat = high then greatest else 0xBF)) :
    (0x80 ≤ b₁.toNat ∧ b₁.toNat ≤ 0xBF) ∧ (b₀.toNat = low → least ≤ b₁.toNat) ∧
      (b₀.toNat = high → b₁.toNat ≤ greatest) := by
  obtain ⟨h₁, h₂⟩ := h
  refine ⟨⟨?_, ?_⟩, fun heq => ?_, fun heq => ?_⟩
  · split at h₁ <;> omega
  · split at h₂ <;> omega
  · rwa [if_pos heq] at h₁
  · rwa [if_pos heq] at h₂

theorem bounds_of_isTail {b : UInt8} (h : isTail b = true) : 0x80 ≤ b.toNat ∧ b.toNat ≤ 0xBF := by
  simpa [isTail] using h

/-- The first bytes that are within what the first one announces are those of a form, or their run
is ended by what follows. -/
theorem exists_first_piece (b : UInt8) (r : List UInt8) :
    (∃ n bytes rest, Form n bytes ∧ b :: r = bytes ++ rest) ∨
      ∃ run flaw rest, run ≠ [] ∧ (∀ c ∈ run, 0x80 ≤ c.toNat) ∧ b :: r = run ++ rest ∧
        pieces (b :: r) = .bad run flaw :: pieces rest := by
  rw [pieces]
  split
  · rename_i hascii
    exact .inl ⟨_, [b], r, .one hascii, rfl⟩
  rename_i hbeyond
  have hfirst : 0x80 ≤ b.toNat := Nat.le_of_not_lt hbeyond
  split
  · exact .inr ⟨[b], .start, r, by simp, by simpa using hfirst, rfl, rfl⟩
  rename_i l hlead
  split
  · exact .inr ⟨[b], .truncated, [], by simp, by simpa using hfirst, rfl, rfl⟩
  rename_i b₁ r₁
  split
  case isFalse =>
    exact .inr ⟨[b], .continuation, b₁ :: r₁, by simp, by simpa using hfirst, rfl, rfl⟩
  rename_i hsecond
  simp only [Bool.and_eq_true, decide_eq_true_eq] at hsecond
  have hrun₂ : 0x80 ≤ b₁.toNat → ∀ c ∈ [b, b₁], 0x80 ≤ c.toNat := by
    intro h₁
    simpa using ⟨hfirst, h₁⟩
  dsimp only
  rcases lead?_cases hlead with ⟨h₀, rfl⟩ | ⟨h₀, rfl⟩ | ⟨h₀, rfl⟩
  · exact .inl ⟨_, [b, b₁], r₁, .two h₀ hsecond, rfl⟩
  · obtain ⟨h₁, hleast, hgreatest⟩ := tail_of_bounds (by decide) (by decide) hsecond
    rw [if_neg (by simp)]
    cases r₁ with
    | nil => exact .inr ⟨[b, b₁], .truncated, [], by simp, hrun₂ h₁.1, rfl, rfl⟩
    | cons b₂ r₂ =>
      by_cases htail : isTail b₂ = true
      · exact .inl ⟨_, [b, b₁, b₂], r₂,
          .three h₀ h₁ hleast hgreatest (bounds_of_isTail htail), rfl⟩
      · dsimp only
        rw [if_neg htail]
        exact .inr ⟨[b, b₁], .continuation, b₂ :: r₂, by simp, hrun₂ h₁.1, rfl, rfl⟩
  · obtain ⟨h₁, hleast, hgreatest⟩ := tail_of_bounds (by decide) (by decide) hsecond
    rw [if_neg (by simp)]
    cases r₁ with
    | nil => exact .inr ⟨[b, b₁], .truncated, [], by simp, hrun₂ h₁.1, rfl, rfl⟩
    | cons b₂ r₂ =>
      by_cases htail : isTail b₂ = true
      · have h₂ := bounds_of_isTail htail
        have hrun₃ : ∀ c ∈ [b, b₁, b₂], 0x80 ≤ c.toNat := by
          simpa using ⟨hfirst, h₁.1, h₂.1⟩
        dsimp only
        rw [if_pos htail, if_neg (by simp)]
        cases r₂ with
        | nil => exact .inr ⟨[b, b₁, b₂], .truncated, [], by simp, hrun₃, rfl, rfl⟩
        | cons b₃ r₃ =>
          by_cases htail₃ : isTail b₃ = true
          · exact .inl ⟨_, [b, b₁, b₂, b₃], r₃,
              .four h₀ h₁ hleast hgreatest h₂ (bounds_of_isTail htail₃), rfl⟩
          · dsimp only
            rw [if_neg htail₃]
            exact .inr ⟨[b, b₁, b₂], .continuation, b₃ :: r₃, by simp, hrun₃, rfl, rfl⟩
      · dsimp only
        rw [if_neg htail]
        exact .inr ⟨[b, b₁], .continuation, b₂ :: r₂, by simp, hrun₂ h₁.1, rfl, rfl⟩

end ProjectAudit.Text.Utf8
