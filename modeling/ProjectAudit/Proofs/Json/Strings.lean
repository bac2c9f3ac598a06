import ProjectAudit.Json.Printer
import ProjectAudit.Json.Reader

/-!
# Strings are read back

The writer turns each code point into ASCII by itself, and the reader joins two escapes that form a
surrogate pair.  So a string comes back as it was, but for one case: a high surrogate with a low one
right behind it comes back as the one character that the two stand for.  `Text.fused` is the text
with all such pairs joined, and a text without surrogates is already fused.

A writer that leaves as it is what it need not escape has no such pairs of escapes, and its strings
come back unchanged.

* `Json.stringRest_written`: what a written string is read as.
* `Json.stringRest_rawWritten`: a string with few escapes is read back.
* `Json.fused_ofString`: a text without surrogates is read back as it was.
-/

namespace ProjectAudit

namespace Json

/-! ## Four hexadecimal digits -/

theorem hexValue?_digitChar {n : Nat} (h : n < 16) : hexValue? (.char n.digitChar) = some n := by
  revert n
  decide

theorem hexDigits_four {n : Nat} (h : n < 0x10000) :
    Text.hexDigits 4 n = [(n / 4096).digitChar, (n / 256 % 16).digitChar,
      (n / 16 % 16).digitChar, (n % 16).digitChar] := by
  have hzero {m : Nat} (hm : m = 0) : m.digitChar = '0' := by
    rw [hm]
    rfl
  have hlast {m : Nat} (hm : m < 16) : Nat.toDigits 16 m = [m.digitChar] :=
    Nat.toDigits_of_lt_base hm
  have hstep {m : Nat} (hm : 16 ≤ m) :
      Nat.toDigits 16 m = Nat.toDigits 16 (m / 16) ++ [(m % 16).digitChar] :=
    Nat.toDigits_of_base_le (by decide) hm
  have htwo : n / 16 / 16 = n / 256 := by omega
  have hthree : n / 256 / 16 = n / 4096 := by omega
  rw [Text.hexDigits]
  by_cases h₁ : n < 16
  · rw [hlast h₁, hzero (m := n / 4096) (by omega), hzero (m := n / 256 % 16) (by omega),
      hzero (m := n / 16 % 16) (by omega), Nat.mod_eq_of_lt h₁]
    rfl
  rw [hstep (by omega)]
  by_cases h₂ : n / 16 < 16
  · rw [hlast h₂, hzero (m := n / 4096) (by omega), hzero (m := n / 256 % 16) (by omega),
      Nat.mod_eq_of_lt h₂]
    rfl
  rw [hstep (by omega), htwo]
  by_cases h₃ : n / 256 < 16
  · rw [hlast h₃, hzero (m := n / 4096) (by omega), Nat.mod_eq_of_lt h₃]
    rfl
  · rw [hstep (by omega), hthree, hlast (by omega)]
    rfl

/-- The digits of a code unit denote it. -/
theorem unit?_hexDigits {n : Nat} (h : n < 0x10000) :
    ∃ a b c d, (Text.hexDigits 4 n).map CodePoint.char = [a, b, c, d] ∧ unit? a b c d = some n := by
  refine ⟨.char (n / 4096).digitChar, .char (n / 256 % 16).digitChar, .char (n / 16 % 16).digitChar,
    .char (n % 16).digitChar, by rw [hexDigits_four h]; rfl, ?_⟩
  rw [unit?, hexValue?_digitChar (by omega), hexValue?_digitChar (by omega),
    hexValue?_digitChar (by omega), hexValue?_digitChar (by omega)]
  show some _ = some n
  congr 1
  omega

/-! ## Steps of the reader -/

theorem stringRest_quote (r : Text) : stringRest (.char '"' :: r) = .ok ([], r) := by
  rw [stringRest.eq_def]
  exact if_pos rfl

theorem stringRest_plain {c : CodePoint} (hquote : c ≠ '"') (hslash : c ≠ '\\')
    (hcontrol : 32 ≤ c.toNat) (r : Text) :
    stringRest (c :: r) = (stringRest r).map (consRead c) := by
  rw [stringRest.eq_def]
  dsimp only
  rw [if_neg hquote, if_neg hslash, if_neg (Nat.not_lt.2 hcontrol)]

theorem stringRest_short {e c : CodePoint} (hu : e ≠ 'u') (he : escaped? e = some c) (r : Text) :
    stringRest (.char '\\' :: e :: r) = (stringRest r).map (consRead c) := by
  rw [stringRest.eq_def]
  dsimp only
  rw [if_neg (by decide), if_pos rfl, if_neg hu, he]

/-- The code unit that a text begins with an escape of, if there is more text behind the escape. -/
def leadingUnit? : Text → Option Nat
  | x :: u :: a :: b :: c :: d :: _ :: _ =>
    if x = '\\' ∧ u = 'u' then unit? a b c d else none
  | _ => none

variable {a b c d : CodePoint} {n : Nat}

/-- An escape that forms no pair with what follows. -/
theorem stringRest_unit (hn : unit? a b c d = some n) {t : Text} (ht : t ≠ [])
    (hpair : (leadingUnit? t).bind (ofPair? n) = none) :
    stringRest (.char '\\' :: .char 'u' :: a :: b :: c :: d :: t) =
      (stringRest t).map (consRead (.ofUnit n)) := by
  obtain ⟨x, r, rfl⟩ := List.exists_cons_of_ne_nil ht
  rw [stringRest, if_neg (by decide), if_pos rfl, if_pos rfl, hn]
  dsimp only
  split
  · rename_i u a' b' c' d' y r'
    have hnone : pairWith? n x u a' b' c' d' = none := by
      rw [leadingUnit?] at hpair
      rw [pairWith?]
      split
      · rename_i hescape
        rwa [if_pos hescape] at hpair
      · rfl
    rw [hnone]
  · rfl

theorem stringRest_pair (hn : unit? a b c d = some n) {a' b' c' d' : CodePoint} {m : Nat}
    (hm : unit? a' b' c' d' = some m) {p : CodePoint} (hp : ofPair? n m = some p) {t : Text}
    (ht : t ≠ []) :
    stringRest (.char '\\' :: .char 'u' :: a :: b :: c :: d ::
      .char '\\' :: .char 'u' :: a' :: b' :: c' :: d' :: t) = (stringRest t).map (consRead p) := by
  obtain ⟨y, r, rfl⟩ := List.exists_cons_of_ne_nil ht
  have hpair : pairWith? n (.char '\\') (.char 'u') a' b' c' d' = some p := by
    rw [pairWith?, if_pos ⟨rfl, rfl⟩, hm]
    exact hp
  rw [stringRest, if_neg (by decide), if_pos rfl, if_pos rfl, hn]
  dsimp only
  rw [hpair]

/-! ## Written code points -/

/-- A code point as it is written inside a string. -/
def writtenChar (c : CodePoint) : Text :=
  (asciiChar c).map .char

/-- A string as it is written, without its quotes. -/
def written (s : Text) : Text :=
  s.flatMap writtenChar

theorem ofString_stringLiteral (s : Text) :
    Text.ofString (stringLiteral s) = .char '"' :: (written s ++ [.char '"']) := by
  simp [Text.ofString, stringLiteral, written, List.map_flatMap]
  rfl

/-- A code unit as it is written. -/
def writtenUnit (n : Nat) : Text :=
  (unitEscape n).map .char

theorem writtenUnit_eq {n : Nat} (h : n < 0x10000) :
    ∃ a b c d, writtenUnit n = [.char '\\', .char 'u', a, b, c, d] ∧ unit? a b c d = some n := by
  obtain ⟨a, b, c, d, hdigits, hunit⟩ := unit?_hexDigits h
  refine ⟨a, b, c, d, ?_, hunit⟩
  rw [writtenUnit, unitEscape, List.map_cons, List.map_cons, hdigits]

/-- A code point is written by a letter behind a backslash, as it is, as one code unit or as two
that form a pair. -/
inductive Writes (c : CodePoint) : Prop
  | short (e : CodePoint) (hu : e ≠ 'u') (he : escaped? e = some c)
    (h : writtenChar c = [.char '\\', e])
  | plain (hquote : c ≠ '"') (hslash : c ≠ '\\') (hcontrol : 32 ≤ c.toNat)
    (h : writtenChar c = [c])
  | unit (hn : c.toNat < 0x10000) (h : writtenChar c = writtenUnit c.toNat)
  | pair (high low : Nat) (hhigh : 0xD800 ≤ high ∧ high ≤ 0xDBFF)
    (hlow : 0xDC00 ≤ low ∧ low ≤ 0xDFFF) (hp : ofPair? high low = some c)
    (h : writtenChar c = writtenUnit high ++ writtenUnit low)

theorem escaped?_of_shortEscape? {c : CodePoint} {e : Char} (h : shortEscape? c = some e) :
    (.char e : CodePoint) ≠ 'u' ∧ escaped? (.char e) = some c := by
  unfold shortEscape? at h
  repeat' split at h
  all_goals first
    | rename_i hc
      obtain rfl := Option.some.inj h
      subst hc
      decide
    | cases h

theorem writes_of_plain {c : CodePoint} (hshort : shortEscape? c = none)
    (hn : 32 ≤ c.toNat ∧ c.toNat < 127) : Writes c := by
  have hwritten : writtenChar c = [.char c.toChar] := by
    rw [writtenChar, asciiChar, hshort]
    dsimp only
    rw [if_pos (by simpa using hn)]
    rfl
  cases c with
  | surrogate offset =>
    have hlarge : 0xD800 ≤ (CodePoint.surrogate offset).toNat := Nat.le_add_right _ _
    omega
  | char c =>
    refine .plain ?_ ?_ hn.1 hwritten
    · intro hc
      rw [hc] at hshort
      cases hshort
    · intro hc
      rw [hc] at hshort
      cases hshort

theorem writes_of_large {c : CodePoint} (hshort : shortEscape? c = none)
    (hn : 0x10000 ≤ c.toNat) : Writes c := by
  have hwritten : writtenChar c = writtenUnit (0xD800 + (c.toNat - 0x10000) / 0x400) ++
      writtenUnit (0xDC00 + (c.toNat - 0x10000) % 0x400) := by
    rw [writtenChar, asciiChar, hshort]
    dsimp only
    rw [if_neg (by simp; omega), if_neg (by omega), List.map_append]
    rfl
  cases c with
  | surrogate offset =>
    have hsmall : (CodePoint.surrogate offset).toNat < 0xE000 := by
      rw [CodePoint.toNat]
      omega
    omega
  | char c =>
    have hvalid : c.toNat < 0x110000 := by
      rcases c.valid with h | ⟨-, h⟩
      · exact Nat.lt_of_lt_of_le h (by decide)
      · exact h
    have htoNat : (CodePoint.char c).toNat = c.toNat := rfl
    rw [htoNat] at hn hwritten
    refine .pair _ _ (by omega) (by omega) ?_ hwritten
    have hnumber : 0x10000 + (0xD800 + (c.toNat - 0x10000) / 0x400 - 0xD800) * 0x400 +
        (0xDC00 + (c.toNat - 0x10000) % 0x400 - 0xDC00) = c.toNat := by omega
    rw [ofPair?, hnumber, Char.ofNat_toNat, if_pos (by simp; omega)]

theorem writes (c : CodePoint) : Writes c := by
  cases hshort : shortEscape? c with
  | some e =>
    obtain ⟨hu, he⟩ := escaped?_of_shortEscape? hshort
    refine .short (.char e) hu he ?_
    rw [writtenChar, asciiChar, hshort]
    rfl
  | none =>
    by_cases hplain : 32 ≤ c.toNat ∧ c.toNat < 127
    · exact writes_of_plain hshort hplain
    by_cases hunit : c.toNat < 0x10000
    · refine .unit hunit ?_
      rw [writtenChar, asciiChar, hshort]
      dsimp only
      rw [if_neg (by simpa using hplain), if_pos hunit]
      rfl
    · exact writes_of_large hshort (Nat.le_of_not_lt hunit)

/-! ## Written strings -/

theorem ofUnit_toNat {c : CodePoint} (h : c.toNat < 0x10000) : CodePoint.ofUnit c.toNat = c := by
  cases c with
  | surrogate offset =>
    have htoNat : (CodePoint.surrogate offset).toNat = 0xD800 + offset := rfl
    rw [htoNat, CodePoint.ofUnit, dif_pos (by omega)]
    simp
  | char c =>
    have hnot : ¬ (0xD800 ≤ c.toNat ∧ c.toNat < 0xE000) := by
      intro hrange
      rcases c.valid with h | ⟨h, -⟩
      · exact absurd (show c.toNat < 0xD800 from h) (by omega)
      · exact absurd (show 0xDFFF < c.toNat from h) (by omega)
    have htoNat : (CodePoint.char c).toNat = c.toNat := rfl
    rw [htoNat, CodePoint.ofUnit, dif_neg hnot, Char.ofNat_toNat]

theorem ofPair?_isSome {high low : Nat} {p : CodePoint} (h : ofPair? high low = some p) :
    (0xD800 ≤ high ∧ high ≤ 0xDBFF) ∧ 0xDC00 ≤ low ∧ low ≤ 0xDFFF := by
  rw [ofPair?] at h
  split at h
  · rename_i hrange
    simp only [Bool.and_eq_true, decide_eq_true_eq] at hrange
    exact ⟨hrange.1.1, hrange.1.2, hrange.2⟩
  · cases h

end Json

/-- The text with each high surrogate and the low one right behind it joined. -/
def Text.fused : Text → Text
  | a :: b :: r =>
    match Json.ofPair? a.toNat b.toNat with
    | some p => p :: fused r
    | none => a :: fused (b :: r)
  | r => r

namespace Json

theorem leadingUnit?_eq_none {x u : CodePoint} (h : ¬ (x = '\\' ∧ u = 'u')) (r : Text) :
    leadingUnit? (x :: u :: r) = none := by
  unfold leadingUnit?
  split
  · rename_i heq
    cases heq
    exact if_neg h
  · rfl

theorem leadingUnit?_writtenUnit {n : Nat} (hn : n < 0x10000) {t : Text} (ht : t ≠ []) :
    leadingUnit? (writtenUnit n ++ t) = some n := by
  obtain ⟨a, b, c, d, hwritten, hunit⟩ := writtenUnit_eq hn
  obtain ⟨y, r, rfl⟩ := List.exists_cons_of_ne_nil ht
  rw [hwritten]
  show (if CodePoint.char '\\' = .char '\\' ∧ CodePoint.char 'u' = .char 'u' then unit? a b c d
    else none) = some n
  rw [if_pos ⟨rfl, rfl⟩, hunit]

/-- A written code point begins with an escape of the second half of a pair only if it is that half
itself. -/
theorem eq_toNat_of_leadingUnit? {c : CodePoint} {t : Text} (ht : t ≠ []) {n m : Nat}
    (hm : leadingUnit? (writtenChar c ++ t) = some m) {p : CodePoint} (hp : ofPair? n m = some p) :
    m = c.toNat := by
  obtain ⟨y, r, rfl⟩ := List.exists_cons_of_ne_nil ht
  cases writes c with
  | short e hu he h =>
    rw [h, List.cons_append, List.cons_append,
      leadingUnit?_eq_none (fun hescape => hu hescape.2)] at hm
    cases hm
  | plain hquote hslash hcontrol h =>
    rw [h, List.singleton_append, leadingUnit?_eq_none (fun hescape => hslash hescape.1)] at hm
    cases hm
  | unit hn h =>
    rw [h, leadingUnit?_writtenUnit hn ht] at hm
    exact (Option.some.inj hm).symm
  | pair high low hhigh hlow hpair h =>
    rw [h, List.append_assoc, leadingUnit?_writtenUnit (by omega) (by simp)] at hm
    have hrange := (ofPair?_isSome hp).2
    have := Option.some.inj hm
    omega

/-- One written code point is read back, unless it forms a pair with what follows. -/
theorem stringRest_writtenChar (c : CodePoint) {t : Text} (ht : t ≠ [])
    (hpair : (leadingUnit? t).bind (ofPair? c.toNat) = none) :
    stringRest (writtenChar c ++ t) = (stringRest t).map (consRead c) := by
  cases writes c with
  | short e hu he h => rw [h, List.cons_append, List.cons_append, List.nil_append,
      stringRest_short hu he]
  | plain hquote hslash hcontrol h =>
    rw [h, List.singleton_append, stringRest_plain hquote hslash hcontrol]
  | unit hn h =>
    obtain ⟨a, b, c', d, hwritten, hunit⟩ := writtenUnit_eq hn
    rw [h, hwritten]
    refine (stringRest_unit hunit ht hpair).trans ?_
    rw [ofUnit_toNat hn]
  | pair high low hhigh hlow hp h =>
    obtain ⟨a, b, c', d, hfirst, hhighUnit⟩ := writtenUnit_eq (n := high) (by omega)
    obtain ⟨a', b', c'', d', hsecond, hlowUnit⟩ := writtenUnit_eq (n := low) (by omega)
    rw [h, hfirst, hsecond]
    exact stringRest_pair hhighUnit hlowUnit hp ht

theorem writtenChar_surrogate (offset : Fin 0x800) :
    writtenChar (.surrogate offset) = writtenUnit (0xD800 + offset) := by
  have htoNat : (CodePoint.surrogate offset).toNat = 0xD800 + offset := rfl
  have hshort : shortEscape? (.surrogate offset) = none := rfl
  rw [writtenChar, asciiChar, hshort]
  dsimp only
  rw [htoNat, if_neg (by simp; omega), if_pos (by omega)]
  rfl

theorem exists_surrogate {c : CodePoint} (h : 0xD800 ≤ c.toNat ∧ c.toNat ≤ 0xDFFF) :
    ∃ offset : Fin 0x800, c = .surrogate offset := by
  cases c with
  | surrogate offset => exact ⟨offset, rfl⟩
  | char c =>
    have htoNat : (CodePoint.char c).toNat = c.toNat := rfl
    rw [htoNat] at h
    rcases c.valid with hlow | ⟨hhigh, -⟩
    · exact absurd (show c.toNat < 0xD800 from hlow) (by omega)
    · exact absurd (show 0xDFFF < c.toNat from hhigh) (by omega)

theorem written_cons_append (c : CodePoint) (r t : Text) :
    written (c :: r) ++ t = writtenChar c ++ (written r ++ t) := by
  rw [written, List.flatMap_cons, List.append_assoc]
  rfl

/-- **A written string is read back**, with its pairs of surrogates joined. -/
theorem stringRest_written (s rest : Text) :
    stringRest (written s ++ .char '"' :: rest) = .ok (s.fused, rest) := by
  have hne (r : Text) : written r ++ .char '"' :: rest ≠ [] :=
    List.append_ne_nil_of_right_ne_nil _ (List.cons_ne_nil _ _)
  have hquote : leadingUnit? (.char '"' :: rest) = none := by
    cases rest with
    | nil => rfl
    | cons u r => exact leadingUnit?_eq_none (by simp) r
  fun_induction Text.fused s with
  | case1 a b r p hp ih =>
    obtain ⟨⟨hhigh, hhigh'⟩, hlow, hlow'⟩ := ofPair?_isSome hp
    obtain ⟨high, rfl⟩ := exists_surrogate (c := a) ⟨hhigh, by omega⟩
    obtain ⟨low, rfl⟩ := exists_surrogate (c := b) ⟨by omega, hlow'⟩
    obtain ⟨a, b, c, d, hfirst, hhighUnit⟩ := writtenUnit_eq (n := 0xD800 + high) (by omega)
    obtain ⟨a', b', c', d', hsecond, hlowUnit⟩ := writtenUnit_eq (n := 0xD800 + low) (by omega)
    rw [written_cons_append, written_cons_append, writtenChar_surrogate, writtenChar_surrogate,
      hfirst, hsecond]
    refine (stringRest_pair hhighUnit hlowUnit hp (hne r)).trans ?_
    rw [ih]
    rfl
  | case2 a b r hp ih =>
    -- an escape that follows could pair up with `a` only if it were the one that `b` is written as
    have hpair : (leadingUnit? (written (b :: r) ++ .char '"' :: rest)).bind (ofPair? a.toNat) =
        none := by
      cases hm : leadingUnit? (written (b :: r) ++ .char '"' :: rest) with
      | none => rfl
      | some m =>
        cases hpm : ofPair? a.toNat m with
        | none => exact hpm
        | some p =>
          rw [written_cons_append] at hm
          rw [eq_toNat_of_leadingUnit? (hne r) hm hpm, hp] at hpm
          cases hpm
    rw [written_cons_append, stringRest_writtenChar a (hne _) hpair, ih]
    rfl
  | case3 r h =>
    match r with
    | [] => exact stringRest_quote rest
    | [a] =>
      have hpair : (leadingUnit? (written [] ++ .char '"' :: rest)).bind (ofPair? a.toNat) = none :=
        congrArg (Option.bind · _) hquote
      rw [written_cons_append, stringRest_writtenChar a (hne []) hpair]
      exact congrArg _ (stringRest_quote rest)
    | a :: b :: r => exact absurd rfl (h a b r)

/-- A text without surrogates has no pairs to join. -/
theorem fused_of_all_char {s : Text} (h : ∀ c ∈ s, c.isSurrogate = false) : s.fused = s := by
  fun_induction Text.fused s with
  | case1 a b r p hp ih =>
    obtain ⟨⟨hhigh, hhigh'⟩, -, -⟩ := ofPair?_isSome hp
    obtain ⟨high, rfl⟩ := exists_surrogate (c := a) ⟨hhigh, by omega⟩
    have hchar := h _ List.mem_cons_self
    cases hchar
  | case2 a b r hp ih => rw [ih fun c hc => h c (List.mem_cons_of_mem _ hc)]
  | case3 r h => rfl

theorem fused_ofString (s : String) : (Text.ofString s).fused = Text.ofString s := by
  refine fused_of_all_char fun c hc => ?_
  obtain ⟨d, -, rfl⟩ := List.mem_map.1 hc
  rfl

/-! ## Strings with few escapes -/

/-- A code point inside a string, for a writer that escapes nothing but quotes, backslashes and
control characters. -/
def rawChar (c : CodePoint) : Text :=
  match shortEscape? c with
  | some e => [.char '\\', .char e]
  | none => if c.toNat < 32 then writtenUnit c.toNat else [c]

/-- A string as such a writer has it, without its quotes. -/
def rawWritten (s : Text) : Text :=
  s.flatMap rawChar

/-- A code point is written as it is, by a letter behind a backslash or as one code unit. -/
inductive WritesRaw (c : CodePoint) : Prop
  | plain (hquote : c ≠ '"') (hslash : c ≠ '\\') (hcontrol : 32 ≤ c.toNat) (h : rawChar c = [c])
  | short (e : CodePoint) (hu : e ≠ 'u') (he : escaped? e = some c)
    (h : rawChar c = [.char '\\', e])
  | unit (hn : c.toNat < 32) (h : rawChar c = writtenUnit c.toNat)

theorem writesRaw (c : CodePoint) : WritesRaw c := by
  cases hshort : shortEscape? c with
  | some e =>
    obtain ⟨hu, he⟩ := escaped?_of_shortEscape? hshort
    exact .short (.char e) hu he (by rw [rawChar, hshort])
  | none =>
    by_cases hcontrol : c.toNat < 32
    · exact .unit hcontrol (by rw [rawChar, hshort]; exact if_pos hcontrol)
    · have hraw : rawChar c = [c] := by
        rw [rawChar, hshort]
        exact if_neg hcontrol
      refine .plain ?_ ?_ (Nat.le_of_not_lt hcontrol) hraw
      all_goals
        rintro rfl
        cases hshort

/-- Such a code point is read back by itself: no control character is half of a pair. -/
theorem stringRest_rawChar (c : CodePoint) {t : Text} (ht : t ≠ []) :
    stringRest (rawChar c ++ t) = (stringRest t).map (consRead c) := by
  cases writesRaw c with
  | plain hquote hslash hcontrol h =>
    rw [h, List.singleton_append, stringRest_plain hquote hslash hcontrol]
  | short e hu he h =>
    rw [h]
    exact stringRest_short hu he t
  | unit hn h =>
    obtain ⟨a, b, c', d, hwritten, hunit⟩ := writtenUnit_eq (n := c.toNat) (by omega)
    have hpair : (leadingUnit? t).bind (ofPair? c.toNat) = none := by
      refine Option.bind_eq_none_iff.2 fun m _ => Option.eq_none_iff_forall_ne_some.2 ?_
      intro p hp
      have hrange := (ofPair?_isSome hp).1
      omega
    rw [h, hwritten]
    refine (stringRest_unit hunit ht hpair).trans ?_
    rw [ofUnit_toNat (by omega)]

theorem rawWritten_cons_append (c : CodePoint) (s t : Text) :
    rawWritten (c :: s) ++ t = rawChar c ++ (rawWritten s ++ t) := by
  rw [rawWritten, List.flatMap_cons, List.append_assoc]
  rfl

/-- **A string with few escapes is read back** as it was. -/
theorem stringRest_rawWritten (s rest : Text) :
    stringRest (rawWritten s ++ .char '"' :: rest) = .ok (s, rest) := by
  induction s with
  | nil => exact stringRest_quote rest
  | cons c s ih =>
    have hne : rawWritten s ++ .char '"' :: rest ≠ [] :=
      List.append_ne_nil_of_right_ne_nil _ (List.cons_ne_nil _ _)
    rw [rawWritten_cons_append, stringRest_rawChar c hne, ih]
    rfl

end Json

end ProjectAudit
