import ProjectAudit.Text.Lines
import Mathlib.Data.List.TakeWhile

/-!
# Cutting into lines, and trimming

A text is cut at every boundary in it, so what comes of a text that is made of lines depends on the
boundaries that each line holds: a line without any is one line, and a line with some is cut there.
The line end `"\r\n"` is the one boundary that is not a single code point; texts without carriage
returns have none.

* `Text.splitLines_append_newline`: the lines of two parts with a line feed between them.
* `Text.splitLines_newline_between`: the same for any parts, up to an empty line.
* `Text.cut`: a text is unbroken, or is cut at its first boundary.
* `Text.splitNewlines_append_newline`, `Text.splitNewlines_joined`: the same where line feeds alone
  end a line.
* `Text.exists_trim`: trimming takes blanks away from both ends, and leaves none there.
-/

namespace ProjectAudit.Text

/-! ## Lines -/

/-- A text without a line boundary in it. -/
def Unbroken (t : Text) : Prop :=
  ∀ c ∈ t, isBoundary c = false

instance (t : Text) : Decidable (Unbroken t) :=
  inferInstanceAs (Decidable (∀ c ∈ t, isBoundary c = false))

theorem splitLines_cons {c : CodePoint} (hc : c ≠ '\r') (r : Text) :
    splitLines (c :: r) =
      if isBoundary c then [] :: splitLines r else consToFirst c (splitLines r) := by
  rw [splitLines]
  exact fun r' heq => absurd heq hc

theorem consToFirst_append {ls : List Text} (hls : ls ≠ []) (c : CodePoint) (more : List Text) :
    consToFirst c (ls ++ more) = consToFirst c ls ++ more := by
  cases ls with
  | nil => exact absurd rfl hls
  | cons l ls => rfl

theorem splitLines_ne_nil {t : Text} (ht : t ≠ []) : splitLines t ≠ [] := by
  unfold splitLines
  split
  · exact absurd rfl ht
  · exact List.cons_ne_nil _ _
  · split
    · exact List.cons_ne_nil _ _
    · exact consToFirst_ne_nil _ _

/-- Behind a line feed the cutting begins anew. -/
theorem splitLines_append_newline {a : Text} (ha : .char '\r' ∉ a) (b : Text) :
    splitLines (a ++ .char '\n' :: b) = splitLines (a ++ [.char '\n']) ++ splitLines b := by
  induction a with
  | nil =>
    rw [List.nil_append, List.nil_append, splitLines_cons (by decide), splitLines_cons (by decide)]
    rfl
  | cons c a ih =>
    obtain ⟨hc, ha⟩ := not_or.1 (List.mem_cons.not.1 ha)
    rw [List.cons_append, List.cons_append, splitLines_cons (Ne.symm hc),
      splitLines_cons (Ne.symm hc), ih ha]
    split
    · rfl
    · exact consToFirst_append (splitLines_ne_nil (by simp)) c _

/-- A line feed behind any text ends its last line.  If there is none to end, because the text is
empty or ends with a boundary other than a carriage return, it is an empty line of its own. -/
theorem splitLines_newline_between (a b : Text) :
    ∃ blank, (blank = [] ∨ blank = [[]]) ∧
      splitLines (a ++ .char '\n' :: b) = splitLines a ++ blank ++ splitLines b := by
  -- The cases are those of the cutting: a carriage return may take the next line feed with it.
  fun_induction splitLines a with
  | case1 =>
    refine ⟨[[]], .inr rfl, ?_⟩
    rw [List.nil_append, splitLines_cons (by decide)]
    rfl
  | case2 a ih =>
    obtain ⟨blank, hblank, ih⟩ := ih
    exact ⟨blank, hblank, congrArg ([] :: ·) ih⟩
  | case3 c a hpair hc ih =>
    by_cases hreturn : c = .char '\r' ∧ a = []
    · obtain ⟨rfl, rfl⟩ := hreturn
      exact ⟨[], .inl rfl, rfl⟩
    · obtain ⟨blank, hblank, ih⟩ := ih
      refine ⟨blank, hblank, ?_⟩
      rw [List.cons_append, splitLines, if_pos hc, ih]
      · rfl
      · intro r heq hr
        cases a with
        | nil => exact hreturn ⟨heq, rfl⟩
        | cons d a => exact hpair a heq (by rw [(List.cons.inj hr).1])
  | case4 c a hpair hc ih =>
    have hreturn : c ≠ .char '\r' := by
      rintro rfl
      exact hc rfl
    obtain ⟨blank, hblank, ih⟩ := ih
    by_cases ha : a = []
    · subst ha
      refine ⟨[], .inl rfl, ?_⟩
      rw [List.singleton_append, splitLines_cons hreturn, if_neg hc, splitLines_cons (by decide)]
      rfl
    · refine ⟨blank, hblank, ?_⟩
      rw [List.cons_append, splitLines_cons hreturn, if_neg hc, ih, List.append_assoc,
        consToFirst_append (splitLines_ne_nil ha), List.append_assoc]

/-- A text is cut at its first boundary. -/
theorem splitLines_append_boundary {u : Text} (hu : Unbroken u) {b : CodePoint}
    (hb : isBoundary b = true) (hreturn : b ≠ '\r') (r : Text) :
    splitLines (u ++ b :: r) = u :: splitLines r := by
  induction u with
  | nil => rw [List.nil_append, splitLines_cons hreturn, if_pos hb]
  | cons c u ih =>
    obtain ⟨hc, hu⟩ := List.forall_mem_cons.1 hu
    have hne : c ≠ '\r' := by
      rintro rfl
      cases hc
    rw [List.cons_append, splitLines_cons hne, ih hu, hc]
    rfl

/-- A text without a boundary in it is one line, or none if it is empty. -/
theorem splitLines_of_unbroken {t : Text} (ht : Unbroken t) (hsome : t ≠ []) :
    splitLines t = [t] := by
  induction t with
  | nil => exact absurd rfl hsome
  | cons c t ih =>
    obtain ⟨hc, ht⟩ := List.forall_mem_cons.1 ht
    have hreturn : c ≠ '\r' := by
      rintro rfl
      cases hc
    rw [splitLines_cons hreturn, hc, if_neg Bool.false_ne_true]
    by_cases hrest : t = []
    · subst hrest
      rfl
    · rw [ih ht hrest]
      rfl

/-- A text is unbroken, or there is a first boundary in it. -/
theorem cut (t : Text) :
    Unbroken t ∨ ∃ u b r, t = u ++ b :: r ∧ Unbroken u ∧ isBoundary b = true := by
  induction t with
  | nil => exact .inl fun c hc => absurd hc List.not_mem_nil
  | cons c t ih =>
    by_cases hc : isBoundary c = true
    · exact .inr ⟨[], c, t, rfl, fun c hc => absurd hc List.not_mem_nil, hc⟩
    · have hcontinues : isBoundary c = false := Bool.eq_false_iff.2 hc
      rcases ih with ht | ⟨u, b, r, rfl, hu, hb⟩
      · exact .inl (List.forall_mem_cons.2 ⟨hcontinues, ht⟩)
      · exact .inr ⟨c :: u, b, r, rfl, List.forall_mem_cons.2 ⟨hcontinues, hu⟩, hb⟩

theorem mem_of_mem_consToFirst {c d : CodePoint} {ls : List Text} {l : Text}
    (hl : l ∈ consToFirst d ls) (hc : c ∈ l) : c = d ∨ ∃ l ∈ ls, c ∈ l := by
  cases ls with
  | nil =>
    obtain rfl := List.mem_singleton.1 hl
    exact .inl (List.mem_singleton.1 hc)
  | cons first ls =>
    rcases List.mem_cons.1 hl with rfl | hl
    · exact (List.mem_cons.1 hc).imp_right fun hc => ⟨first, List.mem_cons_self, hc⟩
    · exact .inr ⟨l, List.mem_cons_of_mem _ hl, hc⟩

/-- What stands in a line stands in the text. -/
theorem mem_of_mem_splitLines {t line : Text} {c : CodePoint} (hline : line ∈ splitLines t)
    (hc : c ∈ line) : c ∈ t := by
  fun_induction splitLines t generalizing line with
  | case1 => cases hline
  | case2 t ih =>
    rcases List.mem_cons.1 hline with rfl | hline
    · cases hc
    · exact List.mem_cons_of_mem _ (List.mem_cons_of_mem _ (ih hline hc))
  | case3 d t _ _ ih =>
    rcases List.mem_cons.1 hline with rfl | hline
    · cases hc
    · exact List.mem_cons_of_mem _ (ih hline hc)
  | case4 d t _ _ ih =>
    rcases mem_of_mem_consToFirst hline hc with rfl | ⟨l, hl, hc⟩
    · exact List.mem_cons_self
    · exact List.mem_cons_of_mem _ (ih hl hc)

/-! ## Lines ended by line feeds alone -/

/-- At a line feed a text is cut. -/
theorem splitNewlines_append_newline (a b : Text) :
    splitNewlines (a ++ .char '\n' :: b) = splitNewlines a ++ splitNewlines b := by
  induction a with
  | nil => rfl
  | cons c a ih =>
    rw [List.cons_append, splitNewlines, splitNewlines, ih]
    split
    · rfl
    · cases h : splitNewlines a with
      | nil => exact absurd h (splitNewlines_ne_nil a)
      | cons l ls => rfl

/-- A text without line feeds is one line. -/
theorem splitNewlines_of_unbroken {t : Text} (h : ∀ c ∈ t, c ≠ '\n') :
    splitNewlines t = [t] := by
  induction t with
  | nil => rfl
  | cons c t ih =>
    obtain ⟨hc, ht⟩ := List.forall_mem_cons.1 h
    rw [splitNewlines, if_neg hc, ih ht]
    rfl

/-- Lines with line feeds between them are cut into these lines. -/
theorem splitNewlines_joined {lines : List Text} (hsome : lines ≠ [])
    (hlines : ∀ line ∈ lines, .char '\n' ∉ line) : splitNewlines (joined "\n" lines) = lines := by
  induction lines with
  | nil => exact absurd rfl hsome
  | cons line lines ih =>
    obtain ⟨hline, hrest⟩ := List.forall_mem_cons.1 hlines
    have hone : splitNewlines line = [line] :=
      splitNewlines_of_unbroken fun c hc heq => hline (heq ▸ hc)
    cases lines with
    | nil => simpa [joined] using hone
    | cons next lines =>
      have hjoined : joined "\n" (line :: next :: lines) =
          line ++ .char '\n' :: joined "\n" (next :: lines) := by
        rw [joined, List.intercalate_cons_cons, List.append_assoc]
        rfl
      rw [hjoined, splitNewlines_append_newline, hone, ih (List.cons_ne_nil _ _) hrest,
        List.singleton_append]

/-! ## Trimming -/

/-- Trimming takes blanks away from both ends. -/
theorem exists_trim (t : Text) :
    ∃ front back, t = front ++ trim t ++ back ∧ (∀ c ∈ front, isBlank c = true) ∧
      ∀ c ∈ back, isBlank c = true := by
  have hback := List.takeWhile_append_dropWhile (p := isBlank) (l := (t.dropWhile isBlank).reverse)
  refine ⟨t.takeWhile isBlank, ((t.dropWhile isBlank).reverse.takeWhile isBlank).reverse, ?_,
    fun c hc => List.mem_takeWhile_imp hc, fun c hc => ?_⟩
  · rw [List.append_assoc, trim, trimBy, ← List.reverse_append, hback, List.reverse_reverse,
      List.takeWhile_append_dropWhile]
  · exact List.mem_takeWhile_imp (List.mem_reverse.1 hc)

theorem mem_of_mem_trim {t : Text} {c : CodePoint} (h : c ∈ trim t) : c ∈ t := by
  obtain ⟨front, back, ht, -, -⟩ := exists_trim t
  rw [ht]
  exact List.mem_append_left _ (List.mem_append_right _ h)

/-- What is left does not end with a blank. -/
theorem isBlank_getLast?_trim {t : Text} {c : CodePoint} (h : (trim t).getLast? = some c) :
    isBlank c = false := by
  rw [trim, trimBy, List.getLast?_reverse] at h
  have hfirst := List.head?_dropWhile_not isBlank (t.dropWhile isBlank).reverse
  rw [h] at hfirst
  simpa using hfirst

/-- What is left does not begin with a blank either, since it begins what is left in front. -/
theorem isBlank_head?_trim {t : Text} {c : CodePoint} (h : (trim t).head? = some c) :
    isBlank c = false := by
  obtain ⟨back, hback⟩ : trim t <+: t.dropWhile isBlank := by
    rw [trim, trimBy, ← List.reverse_suffix, List.reverse_reverse]
    exact List.dropWhile_suffix _
  have hhead : (t.dropWhile isBlank).head? = some c := by
    rw [← hback, List.head?_append, h]
    rfl
  have hfirst := List.head?_dropWhile_not isBlank t
  rw [hhead] at hfirst
  simpa using hfirst

/-- A text that begins and ends with other code points than blanks is left as it is. -/
theorem trim_eq_self {t : Text} (hhead : ∀ c, t.head? = some c → isBlank c = false)
    (hlast : ∀ c, t.getLast? = some c → isBlank c = false) : trim t = t := by
  have hfront : t.dropWhile isBlank = t := by
    cases t with
    | nil => rfl
    | cons c t => rw [List.dropWhile_cons_of_neg (by simp [hhead c rfl])]
  have hback : t.reverse.dropWhile isBlank = t.reverse := by
    cases hreverse : t.reverse with
    | nil => rfl
    | cons c r =>
      have hc : t.getLast? = some c := by rw [← List.head?_reverse, hreverse]; rfl
      rw [List.dropWhile_cons_of_neg (by simp [hlast c hc])]
  rw [trim, trimBy, hfront, hback, List.reverse_reverse]

end ProjectAudit.Text
