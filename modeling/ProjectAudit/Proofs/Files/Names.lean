import ProjectAudit.Proofs.Files.Refusals
import ProjectAudit.Proofs.Text.Utf8
import Mathlib.Data.List.Forall2

/-!
# Names as texts and as bytes

The bytes of a name have a text, and the text stands for these bytes again, so nothing is lost when
the target of a link is read as a text.  A slash is one code point and one byte, and no other code
point has this byte in it.  So a text is cut into names where its bytes are, and the text of a path
is walked by the names of the path.

* `encodeName_decodeName`: the text of a name stands for the name.
* `forall₂_segments`: the names in a text are those in its bytes.
* `Path.canBeGiven_iff`: what may stand in the names of a path that can be given to the file system.
* `Path.exists_segments_text`: the names in the bytes of a path's text.
-/

namespace ProjectAudit

/-! ## Code points and bytes -/

/-- A code point of ASCII stands for one byte, and every other one for bytes beyond ASCII. -/
theorem nameBytes?_cases {c : CodePoint} {bytes : List UInt8} (h : nameBytes? c = some bytes) :
    (∃ b : UInt8, b.toNat < 0x80 ∧ bytes = [b] ∧ c = .char (Char.ofNat b.toNat)) ∨
      bytes ≠ [] ∧ ∀ b ∈ bytes, 0x80 ≤ b.toNat := by
  cases c with
  | char c =>
    obtain rfl := Option.some.inj h
    have hform := Text.Utf8.form_utf8EncodeChar c
    generalize hn : c.toNat = n at hform
    generalize String.utf8EncodeChar c = bytes at hform
    cases hform with
    | @one b hb => exact .inl ⟨b, hb, rfl, by rw [← hn, Char.ofNat_toNat]⟩
    | two h₀ h₁ => exact .inr ⟨List.cons_ne_nil _ _, by simp; omega⟩
    | three h₀ h₁ hleast hgreatest h₂ => exact .inr ⟨List.cons_ne_nil _ _, by simp; omega⟩
    | four h₀ h₁ hleast hgreatest h₂ h₃ => exact .inr ⟨List.cons_ne_nil _ _, by simp; omega⟩
  | surrogate offset =>
    rw [nameBytes?] at h
    split at h
    · rename_i hrange
      obtain rfl := Option.some.inj h
      simp only [Bool.and_eq_true, decide_eq_true_eq] at hrange
      refine .inr ⟨List.cons_ne_nil _ _, List.forall_mem_singleton.2 ?_⟩
      rw [Text.Utf8.toNat_ofNat_of_lt (by omega)]
      omega
    · cases h

theorem nameBytes?_byteEscape {b : UInt8} (hb : 0x80 ≤ b.toNat) :
    nameBytes? (byteEscape b) = some [b] := by
  have hlt := b.toNat_lt
  rw [byteEscape, nameBytes?, if_pos (by simp; omega)]
  simp

theorem isSlash_of_nameBytes? {c : CodePoint} {bytes : List UInt8} (h : nameBytes? c = some bytes)
    (hc : c ≠ .char '/') : ∀ b ∈ bytes, FileName.isSlash b = false := by
  rcases nameBytes?_cases h with ⟨b, -, rfl, rfl⟩ | ⟨-, hbeyond⟩
  · refine List.forall_mem_singleton.2 (Bool.eq_false_iff.2 fun hslash => hc ?_)
    obtain rfl : b = 47 := by simpa [FileName.isSlash] using hslash
    rfl
  · refine fun b hb => Bool.eq_false_iff.2 fun hslash => ?_
    obtain rfl : b = 47 := by simpa [FileName.isSlash] using hslash
    exact absurd (hbeyond _ hb) (by decide)

/-! ## Texts -/

/-- Where a text stands is of account only if it has no form as a name. -/
theorem encodeFrom_eq_ok_iff {position start : Nat} {t : Text} {n : FileName} :
    encodeFrom position t = .ok n ↔ encodeFrom start t = .ok n := by
  induction t generalizing position start n with
  | nil => rfl
  | cons c t ih =>
    rw [encodeFrom, encodeFrom]
    cases nameBytes? c with
    | none => exact iff_of_false nofun nofun
    | some bytes =>
      simp only [map_eq_ok]
      exact exists_congr fun m => and_congr_left fun _ => ih

theorem encodeName_cons_eq_ok_iff {c : CodePoint} {t : Text} {n : FileName} :
    encodeName (c :: t) = .ok n ↔
      ∃ bytes m, nameBytes? c = some bytes ∧ encodeName t = .ok m ∧ n = bytes ++ m := by
  rw [encodeName, encodeFrom]
  cases nameBytes? c with
  | none => exact iff_of_false nofun nofun
  | some bytes =>
    rw [map_eq_ok]
    constructor
    · rintro ⟨m, hm, rfl⟩
      exact ⟨bytes, m, rfl, encodeFrom_eq_ok_iff.1 hm, rfl⟩
    · rintro ⟨_, m, ⟨⟩, hm, rfl⟩
      exact ⟨m, encodeFrom_eq_ok_iff.1 hm, rfl⟩

theorem encodeName_append_eq_ok {s t : Text} {m n : FileName} (hs : encodeName s = .ok m)
    (ht : encodeName t = .ok n) : encodeName (s ++ t) = .ok (m ++ n) := by
  induction s generalizing m with
  | nil =>
    obtain rfl : m = [] := (Except.ok.inj hs).symm
    exact ht
  | cons c s ih =>
    obtain ⟨bytes, m', hc, hs', rfl⟩ := encodeName_cons_eq_ok_iff.1 hs
    exact encodeName_cons_eq_ok_iff.2 ⟨bytes, m' ++ n, hc, ih hs', List.append_assoc _ _ _⟩

theorem encodeName_byteEscapes {run : List UInt8} (hrun : ∀ b ∈ run, 0x80 ≤ b.toNat) :
    encodeName (run.map byteEscape) = .ok run := by
  induction run with
  | nil => rfl
  | cons b run ih =>
    obtain ⟨hb, hrun⟩ := List.forall_mem_cons.1 hrun
    exact encodeName_cons_eq_ok_iff.2 ⟨[b], run, nameBytes?_byteEscape hb, ih hrun, rfl⟩

/-- **The text of a name stands for the name.** -/
theorem encodeName_decodeName (n : FileName) : encodeName (decodeName n) = .ok n := by
  -- By the length of the name, which is cut into pieces.
  induction hlength : n.length using Nat.strongRecOn generalizing n with
  | ind k ih =>
    subst hlength
    cases n with
    | nil => rfl
    | cons b r =>
      rcases Text.Utf8.exists_first_piece b r with
        ⟨number, bytes, rest, hform, hbytes⟩ | ⟨run, flaw, rest, hsome, hrun, hbytes, hpieces⟩
      · have hshorter : rest.length < (b :: r).length := by
          have hne : 0 < bytes.length := by cases hform <;> simp
          rw [hbytes, List.length_append]
          omega
        have hrest := ih _ hshorter rest rfl
        rw [hbytes, decodeName, hform.pieces_append, List.flatMap_cons]
        exact encodeName_cons_eq_ok_iff.2
          ⟨bytes, rest, congrArg some hform.utf8EncodeChar_ofNat, hrest, rfl⟩
      · have hshorter : rest.length < (b :: r).length := by
          have hne := List.length_pos_iff.2 hsome
          rw [hbytes, List.length_append]
          omega
        have hrest := ih _ hshorter rest rfl
        rw [decodeName, hpieces, List.flatMap_cons, hbytes]
        exact encodeName_append_eq_ok (encodeName_byteEscapes hrun) hrest

/-- A name of ASCII bytes has one text. -/
theorem eq_of_encodeName_ascii {t : Text} {n : FileName} (h : encodeName t = .ok n)
    (hascii : ∀ b ∈ n, b.toNat < 0x80) : t = n.map fun b => .char (Char.ofNat b.toNat) := by
  induction t generalizing n with
  | nil =>
    obtain rfl : n = [] := (Except.ok.inj h).symm
    rfl
  | cons c t ih =>
    obtain ⟨bytes, m, hc, ht, rfl⟩ := encodeName_cons_eq_ok_iff.1 h
    obtain ⟨hbytes, hm⟩ := List.forall_mem_append.1 hascii
    rcases nameBytes?_cases hc with ⟨b, -, rfl, rfl⟩ | ⟨hsome, hbeyond⟩
    · exact congrArg _ (ih ht hm)
    · obtain ⟨b, hb⟩ := List.exists_mem_of_ne_nil _ hsome
      exact absurd (hbytes b hb) (Nat.not_lt.2 (hbeyond b hb))

/-- A text that stands for the bytes of an ASCII word is that word. -/
theorem eq_iff_of_encodeName {name : Text} {n : FileName} (h : encodeName name = .ok n)
    (word : String) (hword : encodeName word = .ok (word.toList.map fun c => UInt8.ofNat c.toNat))
    (hascii : (word.toList.all fun c => c.toNat < 0x80) = true) :
    name = word ↔ n = word.toList.map fun c => UInt8.ofNat c.toNat := by
  have hbytes : ∀ b ∈ word.toList.map fun c => UInt8.ofNat c.toNat, b.toNat < 0x80 := by
    refine List.forall_mem_map.2 fun c hc => ?_
    have hlt : c.toNat < 0x80 := of_decide_eq_true (List.all_eq_true.1 hascii c hc)
    rw [Text.Utf8.toNat_ofNat_of_lt (by omega)]
    exact hlt
  constructor
  · rintro rfl
    exact Except.ok.inj (h.symm.trans hword)
  · rintro rfl
    rw [eq_of_encodeName_ascii h hbytes, eq_of_encodeName_ascii hword hbytes]

theorem eq_above_iff {name : Text} {n : FileName} (h : encodeName name = .ok n) :
    n = FileName.above ↔ name = ".." :=
  (eq_iff_of_encodeName h ".." rfl (by decide)).symm

theorem isProper_iff {name : Text} {n : FileName} (h : encodeName name = .ok n) :
    n.isProper = Path.isProperName name := by
  have hempty := eq_iff_of_encodeName h "" rfl (by decide)
  have hhere := eq_iff_of_encodeName h "." rfl (by decide)
  rw [Bool.eq_iff_iff, FileName.isProper, Path.isProperName]
  simp only [Bool.and_eq_true, Bool.not_eq_true', List.isEmpty_eq_false_iff, bne_iff_ne]
  exact and_congr hempty.symm.not hhere.symm.not

/-! ## Pieces between slashes -/

section Segments

variable {α : Type} {isSlash : α → Bool}

theorem segments_ne_nil (isSlash : α → Bool) (l : List α) : segments isSlash l ≠ [] := by
  cases l with
  | nil => exact List.cons_ne_nil _ _
  | cons a l =>
    rw [segments]
    split
    · exact List.cons_ne_nil _ _
    · split <;> exact List.cons_ne_nil _ _

theorem segments_slash {a : α} (ha : isSlash a = true) (l : List α) :
    segments isSlash (a :: l) = [] :: segments isSlash l := by
  rw [segments, if_pos ha]

/-- What has no slash in it is part of the first piece. -/
theorem segments_append {front : List α} (hfront : ∀ a ∈ front, isSlash a = false) (l : List α) :
    ∃ first others, segments isSlash l = first :: others ∧
      segments isSlash (front ++ l) = (front ++ first) :: others := by
  obtain ⟨first, others, hl⟩ := List.exists_cons_of_ne_nil (segments_ne_nil isSlash l)
  refine ⟨first, others, hl, ?_⟩
  induction front with
  | nil => exact hl
  | cons a front ih =>
    obtain ⟨ha, hfront⟩ := List.forall_mem_cons.1 hfront
    rw [List.cons_append, segments, ha, if_neg Bool.false_ne_true, ih hfront]
    rfl

theorem segments_of_free {l : List α} (hl : ∀ a ∈ l, isSlash a = false) :
    segments isSlash l = [l] := by
  obtain ⟨first, others, hnil, happend⟩ := segments_append hl []
  obtain ⟨rfl, rfl⟩ := List.cons.inj hnil
  simpa using happend

/-- No slash stands in a piece. -/
theorem free_of_mem_segments {l piece : List α} (h : piece ∈ segments isSlash l) :
    ∀ a ∈ piece, isSlash a = false := by
  induction l generalizing piece with
  | nil =>
    obtain rfl := List.mem_singleton.1 h
    exact fun a ha => absurd ha List.not_mem_nil
  | cons b l ih =>
    by_cases hb : isSlash b = true
    · rw [segments_slash hb] at h
      rcases List.mem_cons.1 h with rfl | h
      · exact fun a ha => absurd ha List.not_mem_nil
      · exact ih h
    · have hfree : ∀ a ∈ [b], isSlash a = false :=
        List.forall_mem_singleton.2 (Bool.eq_false_iff.2 hb)
      obtain ⟨first, others, hl, hcons⟩ := segments_append hfree l
      rw [List.singleton_append] at hcons
      rw [hcons] at h
      rcases List.mem_cons.1 h with rfl | h
      · exact List.forall_mem_cons.2 ⟨hfree b List.mem_cons_self,
          ih (hl ▸ List.mem_cons_self)⟩
      · exact ih (hl ▸ List.mem_cons_of_mem _ h)

end Segments

/-- **A text is cut into names where its bytes are.** -/
theorem forall₂_segments {t : Text} {n : FileName} (h : encodeName t = .ok n) :
    List.Forall₂ (fun name m => encodeName name = .ok m) (Path.components t)
      (segments FileName.isSlash n) := by
  rw [Path.components]
  induction t generalizing n with
  | nil =>
    obtain rfl : n = [] := (Except.ok.inj h).symm
    exact .cons rfl .nil
  | cons c t ih =>
    obtain ⟨bytes, m, hc, ht, rfl⟩ := encodeName_cons_eq_ok_iff.1 h
    by_cases hslash : c = .char '/'
    · subst hslash
      obtain rfl := Option.some.inj hc
      rw [segments_slash rfl]
      exact .cons rfl (ih ht)
    · have hfree : ∀ d ∈ [c], (d == CodePoint.char '/') = false :=
        List.forall_mem_singleton.2 (by simpa using hslash)
      obtain ⟨first, others, htext, htextAppend⟩ := segments_append hfree t
      obtain ⟨first', others', hbytes, hbytesAppend⟩ :=
        segments_append (isSlash_of_nameBytes? hc hslash) m
      have hboth := ih ht
      rw [htext, hbytes] at hboth
      obtain ⟨hfirst, hothers⟩ := List.forall₂_cons.1 hboth
      rw [List.singleton_append] at htextAppend
      rw [htextAppend, hbytesAppend]
      exact .cons (encodeName_cons_eq_ok_iff.2 ⟨bytes, first', hc, hfirst, rfl⟩) hothers

/-- A name without slashes has a text without slashes. -/
theorem slash_notMem_of_encodeName {t : Text} {n : FileName} (h : encodeName t = .ok n)
    (hn : ∀ b ∈ n, FileName.isSlash b = false) : .char '/' ∉ t := by
  induction t generalizing n with
  | nil => exact List.not_mem_nil
  | cons c t ih =>
    obtain ⟨bytes, m, hc, ht, rfl⟩ := encodeName_cons_eq_ok_iff.1 h
    obtain ⟨hbytes, hm⟩ := List.forall_mem_append.1 hn
    refine List.mem_cons.not.2 (not_or.2 ⟨?_, ih ht hm⟩)
    rintro rfl
    obtain rfl := Option.some.inj hc
    cases hbytes 47 List.mem_cons_self

/-- A name begins with a slash where its text does. -/
theorem head?_any_isSlash {t : Text} {n : FileName} (h : encodeName t = .ok n) :
    n.head?.any FileName.isSlash = true ↔ t.head? = some (.char '/') := by
  cases t with
  | nil =>
    obtain rfl : n = [] := (Except.ok.inj h).symm
    exact iff_of_false nofun nofun
  | cons c t =>
    obtain ⟨bytes, m, hc, ht, rfl⟩ := encodeName_cons_eq_ok_iff.1 h
    by_cases hslash : c = .char '/'
    · subst hslash
      obtain rfl := Option.some.inj hc
      exact iff_of_true rfl rfl
    · have hfree := isSlash_of_nameBytes? hc hslash
      have hsome : bytes ≠ [] := by
        rcases nameBytes?_cases hc with ⟨b, -, rfl, -⟩ | ⟨hsome, -⟩
        · exact List.cons_ne_nil _ _
        · exact hsome
      obtain ⟨b, bytes, rfl⟩ := List.exists_cons_of_ne_nil hsome
      have hb := hfree b List.mem_cons_self
      exact iff_of_false (by simp [hb]) (by simpa using hslash)

/-! ## Paths -/

/-- A code point may stand in a name. -/
def CodePoint.CanBeGiven (c : CodePoint) : Prop :=
  ∃ bytes, nameBytes? c = some bytes ∧ (0 : UInt8) ∉ bytes

theorem exists_encodeName_iff {t : Text} :
    (∃ n, encodeName t = .ok n ∧ (0 : UInt8) ∉ n) ↔ ∀ c ∈ t, c.CanBeGiven := by
  induction t with
  | nil => exact iff_of_true ⟨[], rfl, List.not_mem_nil⟩ fun c hc => absurd hc List.not_mem_nil
  | cons c t ih =>
    rw [List.forall_mem_cons, ← ih]
    constructor
    · rintro ⟨n, hn, hzero⟩
      obtain ⟨bytes, m, hc, ht, rfl⟩ := encodeName_cons_eq_ok_iff.1 hn
      obtain ⟨hbytes, hm⟩ := not_or.1 (List.mem_append.not.1 hzero)
      exact ⟨⟨bytes, hc, hbytes⟩, m, ht, hm⟩
    · rintro ⟨⟨bytes, hc, hbytes⟩, m, ht, hm⟩
      exact ⟨bytes ++ m, encodeName_cons_eq_ok_iff.2 ⟨bytes, m, hc, ht, rfl⟩,
        List.mem_append.not.2 (not_or.2 ⟨hbytes, hm⟩)⟩

/-- The text is one name, which moves somewhere. -/
def IsName (name : Text) : Prop :=
  Path.isProperName name = true ∧ .char '/' ∉ name

namespace Path

/-- All names of the path are single names, as they are in a path that was read from a text. -/
def Proper (p : Path) : Prop :=
  ∀ name ∈ p.names, IsName name

/-- The text of the path is no longer than the file system takes. -/
def Short (p : Path) : Prop :=
  ∀ names, encodeName p.text = .ok names → names.length < FileTree.pathLimit

theorem short_of_encodeName {p : Path} {bytes : FileName} (h : encodeName p.text = .ok bytes)
    (hlength : bytes.length < FileTree.pathLimit) : p.Short := by
  intro names hnames
  rwa [Except.ok.inj (hnames.symm.trans h)]

theorem slash_notMem_of_mem_components {t name : Text} (h : name ∈ components t) :
    .char '/' ∉ name := by
  intro hslash
  have hfree := free_of_mem_segments h _ hslash
  revert hfree
  decide

theorem proper_ofText (t : Text) : (ofText t).Proper := by
  intro name hname
  obtain ⟨hmem, hproper⟩ := List.mem_filter.1 hname
  exact ⟨hproper, slash_notMem_of_mem_components hmem⟩

theorem mem_joined {separator : Text} {names : List Text} {c : CodePoint}
    (h : c ∈ Text.joined separator names) : c ∈ separator ∨ ∃ name ∈ names, c ∈ name := by
  induction names with
  | nil => exact absurd h List.not_mem_nil
  | cons name names ih =>
    cases names with
    | nil => exact .inr ⟨name, List.mem_cons_self, by simpa [Text.joined] using h⟩
    | cons next names =>
      rw [Text.joined, List.intercalate_cons_cons, List.mem_append, List.mem_append] at h
      rcases h with (h | h) | h
      · exact .inr ⟨name, List.mem_cons_self, h⟩
      · exact .inl h
      · rcases ih h with h | ⟨other, hother, h⟩
        · exact .inl h
        · exact .inr ⟨other, List.mem_cons_of_mem _ hother, h⟩

theorem mem_joined_of_mem {separator : Text} {names : List Text} {name : Text} {c : CodePoint}
    (hname : name ∈ names) (hc : c ∈ name) : c ∈ Text.joined separator names := by
  induction names with
  | nil => exact absurd hname List.not_mem_nil
  | cons first names ih =>
    cases names with
    | nil =>
      obtain rfl := List.mem_singleton.1 hname
      simpa [Text.joined] using hc
    | cons next names =>
      rw [Text.joined, List.intercalate_cons_cons, List.mem_append, List.mem_append]
      rcases List.mem_cons.1 hname with rfl | hname
      · exact .inl (.inl hc)
      · exact .inr (ih hname)

/-- Whether a path can be given to the file system depends on its names alone. -/
theorem canBeGiven_iff {p : Path} :
    p.CanBeGiven ↔ ∀ name ∈ p.names, ∀ c ∈ name, c.CanBeGiven := by
  have hascii : ∀ c ∈ ("/." : Text), c.CanBeGiven := by
    intro c hc
    rcases List.mem_cons.1 hc with rfl | hc
    · exact ⟨[47], rfl, by decide⟩
    · obtain rfl := List.mem_singleton.1 hc
      exact ⟨[46], rfl, by decide⟩
  rw [CanBeGiven, exists_encodeName_iff, text]
  constructor
  · intro htext name hname c hc
    have hne : p.names.isEmpty = false := by
      rw [List.isEmpty_eq_false_iff]
      exact List.ne_nil_of_mem hname
    rw [hne, Bool.and_false, if_neg Bool.false_ne_true] at htext
    exact htext c (List.mem_append_right _ (mem_joined_of_mem hname hc))
  · intro hnames c hc
    split at hc
    · obtain rfl := List.mem_singleton.1 hc
      exact hascii _ (by decide)
    · rcases List.mem_append.1 hc with hc | hc
      · have hslash : c = .char '/' := by
          revert hc
          cases p.anchor <;> simp +contextual [anchorText, Text.ofString]
        exact hascii c (by rw [hslash]; decide)
      · rcases mem_joined hc with hslash | ⟨name, hname, hc⟩
        · obtain rfl := List.mem_singleton.1 hslash
          exact hascii _ (by decide)
        · exact hnames name hname c hc

/-- Names with slashes between them are cut into these names. -/
theorem components_joined {names : List Text} (hsome : names ≠ [])
    (hnames : ∀ name ∈ names, .char '/' ∉ name) : components (Text.joined "/" names) = names := by
  have hfree : ∀ {name : Text}, .char '/' ∉ name → ∀ c ∈ name, (c == CodePoint.char '/') = false :=
    fun hname c hc => Bool.eq_false_iff.2 fun heq => hname (eq_of_beq heq ▸ hc)
  induction names with
  | nil => exact absurd rfl hsome
  | cons name names ih =>
    obtain ⟨hname, hrest⟩ := List.forall_mem_cons.1 hnames
    cases names with
    | nil =>
      rw [Text.joined, List.intercalate_singleton]
      exact segments_of_free (hfree hname)
    | cons next names =>
      obtain ⟨first, others, hcut, happend⟩ := segments_append (hfree hname)
        (.char '/' :: Text.joined "/" (next :: names))
      rw [segments_slash (by rfl)] at hcut
      obtain ⟨rfl, rfl⟩ := List.cons.inj hcut
      have hjoined : Text.joined "/" (name :: next :: names) =
          name ++ .char '/' :: Text.joined "/" (next :: names) := by
        rw [Text.joined, List.intercalate_cons_cons, List.append_assoc]
        rfl
      rw [hjoined, components, happend, List.append_nil]
      exact congrArg (name :: ·) (ih (List.cons_ne_nil _ _) hrest)

theorem components_slash (t : Text) : components (.char '/' :: t) = [] :: components t :=
  segments_slash rfl t

/-- The text of a path is cut into its names, behind some that move nowhere. -/
theorem components_text {p : Path} (hp : p.Proper) :
    ∃ lead, (∀ name ∈ lead, isProperName name = false) ∧ components p.text = lead ++ p.names := by
  obtain ⟨anchor, names⟩ := p
  by_cases hsome : names = []
  · subst hsome
    cases anchor with
    | relative => exact ⟨["."], by decide, rfl⟩
    | root => exact ⟨[[], []], by decide, rfl⟩
    | doubleRoot => exact ⟨[[], [], []], by decide, rfl⟩
  · have hnames : components (Text.joined "/" names) = names :=
      components_joined hsome fun name hname => (hp name hname).2
    have htext : text ⟨anchor, names⟩ = anchorText anchor ++ Text.joined "/" names := by
      rw [text, List.isEmpty_eq_false_iff.2 hsome, Bool.and_false, if_neg Bool.false_ne_true]
    rw [htext]
    cases anchor with
    | relative => exact ⟨[], by decide, hnames⟩
    | root =>
      refine ⟨[[]], by decide, ?_⟩
      show components (.char '/' :: Text.joined "/" names) = [] :: names
      rw [components_slash, hnames]
    | doubleRoot =>
      refine ⟨[[], []], by decide, ?_⟩
      show components (.char '/' :: .char '/' :: Text.joined "/" names) = [] :: [] :: names
      rw [components_slash, components_slash, hnames]

/-- A path begins with a slash if it is anchored. -/
theorem head?_text {p : Path} (hp : p.Proper) :
    p.text.head? = some (.char '/') ↔ p.anchor ≠ .relative := by
  obtain ⟨anchor, names⟩ := p
  cases anchor with
  | root => exact iff_of_true (by cases names <;> rfl) nofun
  | doubleRoot => exact iff_of_true (by cases names <;> rfl) nofun
  | relative =>
    refine iff_of_false ?_ (fun h => h rfl)
    cases names with
    | nil => decide
    | cons name names =>
      obtain ⟨hproper, hslash⟩ := hp name List.mem_cons_self
      cases name with
      | nil => cases hproper
      | cons c name =>
        have hhead : text ⟨.relative, (c :: name) :: names⟩ =
            Text.joined "/" ((c :: name) :: names) := rfl
        have hc : (Text.joined "/" ((c :: name) :: names)).head? = some c := by
          cases names <;> rfl
        rw [hhead, hc]
        rintro ⟨⟩
        exact hslash List.mem_cons_self

theorem exists_of_mem_forall₂ {names : List Text} {ns : List FileName}
    (h : List.Forall₂ (fun name n => encodeName name = .ok n) names ns) {n : FileName}
    (hn : n ∈ ns) : ∃ name ∈ names, encodeName name = .ok n := by
  induction h with
  | nil => exact absurd hn List.not_mem_nil
  | @cons name m _ _ hname _ ih =>
    rcases List.mem_cons.1 hn with rfl | hn
    · exact ⟨name, List.mem_cons_self, hname⟩
    · obtain ⟨other, hother, hencode⟩ := ih hn
      exact ⟨other, List.mem_cons_of_mem _ hother, hencode⟩

/-- The names of a path that can be given to the file system are all kept. -/
theorem fileNames_eq {p : Path} {ns : List FileName}
    (h : List.Forall₂ (fun name n => encodeName name = .ok n) p.names ns) : p.fileNames = ns := by
  rw [fileNames]
  generalize p.names = names at h
  induction h with
  | nil => rfl
  | cons hname _ ih =>
    rw [List.filterMap_cons_some (by rw [hname]; rfl), ih]

/-- **The names in the bytes of a path's text** are its names, behind some that move nowhere. -/
theorem exists_segments_text {p : Path} (hp : p.Proper) {bytes : FileName}
    (h : encodeName p.text = .ok bytes) :
    ∃ lead, (∀ n ∈ lead, FileName.isProper n = false) ∧
      segments FileName.isSlash bytes = lead ++ p.fileNames := by
  obtain ⟨lead, hlead, htext⟩ := components_text hp
  have hboth := forall₂_segments h
  rw [htext] at hboth
  have hfront := List.forall₂_take lead.length hboth
  have hback := List.forall₂_drop lead.length hboth
  rw [List.take_left] at hfront
  rw [List.drop_left] at hback
  refine ⟨(segments FileName.isSlash bytes).take lead.length, ?_, ?_⟩
  · intro n hn
    obtain ⟨name, hname, hencode⟩ := exists_of_mem_forall₂ hfront hn
    rw [isProper_iff hencode, hlead name hname]
  · rw [fileNames_eq hback, List.take_append_drop]

end Path

end ProjectAudit
