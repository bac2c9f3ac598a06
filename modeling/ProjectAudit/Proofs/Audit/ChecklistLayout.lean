import ProjectAudit.Proofs.Audit.ChecklistFile
import ProjectAudit.Proofs.Files.Writing

/-!
# The layouts of a checklist

A checklist file is read as the lines that are laid out in it, and there is no other way to read it:
every text is a layout of the lines that are read from it, and these stand for themselves.  So
reading and laying out determine each other, and to write the lines that were read, one a line, is
to write another layout of the same lines.

The proof goes through a text code point by code point and keeps the part of the line that it is
in.  At a line end this part is trimmed, and the blanks that were trimmed off, the line end with
them, are the blanks of the layout.

* `LaidOut.blanks_append`: blanks in front of a layout.
* `laidOut_checklistLines`: every text is a layout of what is read from it.
* `checklistLines_eq_iff`: a text is read as the lines that it is a layout of.
* `readChecklist_iff_laidOut`: the same for files, and that what is read can be written again.
-/

namespace ProjectAudit

open Text

/-! ## Layouts -/

/-- Blanks in front of a layout make another one. -/
theorem LaidOut.blanks_append {lines : List Text} {text front : Text} (h : LaidOut lines text)
    (hfront : IsBlank front) : LaidOut lines (front ++ text) := by
  cases h with
  | none hblanks => exact .none (List.forall_mem_append.2 ⟨hfront, hblanks⟩)
  | last line hbefore hback =>
    rw [← List.append_assoc, ← List.append_assoc]
    exact .last line (List.forall_mem_append.2 ⟨hfront, hbefore⟩) hback
  | line line hbefore hback hend hrest =>
    rw [← List.append_assoc, ← List.append_assoc, ← List.append_assoc]
    exact .line line (List.forall_mem_append.2 ⟨hfront, hbefore⟩) hback hend hrest

/-- A layout holds all that is in its lines. -/
theorem LaidOut.mem {lines : List Text} {text line : Text} (h : LaidOut lines text)
    (hline : line ∈ lines) {c : CodePoint} (hc : c ∈ line) : c ∈ text := by
  induction h with
  | none => exact absurd hline List.not_mem_nil
  | last other =>
    obtain rfl := List.mem_singleton.1 hline
    exact List.mem_append_left _ (List.mem_append_right _ hc)
  | line other _ _ _ _ ih =>
    rcases List.mem_cons.1 hline with rfl | hline
    · exact List.mem_append_left _ (List.mem_append_left _ (List.mem_append_right _ hc))
    · exact List.mem_append_right _ (List.mem_cons_of_mem _ (ih hline))

/-- Lines as they are written one a line. -/
def writtenLines (lines : List Text) : Text :=
  lines.flatMap fun line => line ++ [.char '\n']

theorem laidOut_writtenLines (lines : List Text) : LaidOut lines (writtenLines lines) := by
  induction lines with
  | nil => exact .none fun _ hc => absurd hc List.not_mem_nil
  | cons line lines ih =>
    have hnone : IsBlank [] := fun _ hc => absurd hc List.not_mem_nil
    have hlaid := LaidOut.line line hnone hnone (.inl rfl) ih
    rwa [List.nil_append, List.append_nil, List.append_cons] at hlaid

/-! ## One line -/

/-- A text without a line end. -/
def IsUnended (t : Text) : Prop :=
  ∀ c ∈ t, c ≠ '\n' ∧ c ≠ '\r'

theorem isUnended_nil : IsUnended [] :=
  fun _ hc => absurd hc List.not_mem_nil

/-- What is left of a line stands for itself. -/
theorem isEntry_trim {t : Text} (ht : IsUnended t) (hsome : trim t ≠ []) : IsEntry (trim t) := by
  obtain ⟨front, back, htext, -, -⟩ := exists_trim t
  refine ⟨⟨_, List.head?_eq_some_head hsome, isBlank_head?_trim (List.head?_eq_some_head hsome)⟩,
    ⟨_, List.getLast?_eq_some_getLast hsome,
      isBlank_getLast?_trim (List.getLast?_eq_some_getLast hsome)⟩, fun c hc => ht c ?_⟩
  rw [htext]
  exact List.mem_append_left _ (List.mem_append_right _ hc)

/-- A line is read as what is left of it, or as nothing. -/
theorem checklistLines_of_isUnended {t : Text} (ht : IsUnended t) :
    checklistLines t = if trim t = [] then [] else [trim t] := by
  rw [checklistLines, splitNewlines_of_unbroken fun c hc => (ht c hc).1, List.map_singleton]
  cases trim t <;> rfl

/-- A line is a layout of what is read from it, and so is a line in front of a layout. -/
theorem laidOut_of_isUnended {t : Text} (ht : IsUnended t) : LaidOut (checklistLines t) t := by
  obtain ⟨front, back, htext, hfront, hback⟩ := exists_trim t
  rw [checklistLines_of_isUnended ht]
  split
  · rename_i hnone
    rw [hnone, List.append_nil] at htext
    rw [htext]
    exact .none (List.forall_mem_append.2 ⟨hfront, hback⟩)
  · have hlaid := LaidOut.last (trim t) hfront hback
    rwa [← htext] at hlaid

theorem laidOut_append_of_isUnended {t rest : Text} {lines : List Text} {c : CodePoint}
    (ht : IsUnended t) (hend : c = '\n' ∨ c = '\r') (hrest : LaidOut lines rest) :
    LaidOut (checklistLines t ++ lines) (t ++ c :: rest) := by
  obtain ⟨front, back, htext, hfront, hback⟩ := exists_trim t
  rw [checklistLines_of_isUnended ht]
  split
  · rename_i hnone
    -- nothing but blanks is in front, and the line end is one more
    rw [hnone, List.append_nil] at htext
    have hc : isBlank c = true := by rcases hend with rfl | rfl <;> rfl
    rw [List.nil_append, List.append_cons, htext]
    exact hrest.blanks_append (List.forall_mem_append.2
      ⟨List.forall_mem_append.2 ⟨hfront, hback⟩, List.forall_mem_singleton.2 hc⟩)
  · have hlaid := LaidOut.line (trim t) hfront hback hend hrest
    rwa [← htext] at hlaid

/-! ## Whole texts -/

/-- What is read from a text in which a line has begun. -/
theorem laidOut_append_map_feed {front : Text} (hfront : IsUnended front) (t : Text) :
    (∀ line ∈ checklistLines (front ++ t.map feed), IsEntry line) ∧
      LaidOut (checklistLines (front ++ t.map feed)) (front ++ t) := by
  -- one line read by itself
  have hentries {front : Text} (hfront : IsUnended front) :
      ∀ line ∈ checklistLines front, IsEntry line := by
    rw [checklistLines_of_isUnended hfront]
    split
    · exact fun _ hline => absurd hline List.not_mem_nil
    · exact List.forall_mem_singleton.2 (isEntry_trim hfront ‹_›)
  induction t generalizing front with
  | nil =>
    rw [List.map_nil, List.append_nil]
    exact ⟨hentries hfront, laidOut_of_isUnended hfront⟩
  | cons c t ih =>
    by_cases hend : c = '\n' ∨ c = '\r'
    · obtain ⟨hlines, hlaid⟩ := ih isUnended_nil
      have hfeed : feed c = .char '\n' := by rcases hend with rfl | rfl <;> rfl
      rw [List.map_cons, hfeed, checklistLines_append_newline]
      exact ⟨List.forall_mem_append.2 ⟨hentries hfront, hlines⟩,
        laidOut_append_of_isUnended hfront hend hlaid⟩
    · obtain ⟨hfeedEnd, hreturn⟩ := not_or.1 hend
      rw [List.map_cons, feed, if_neg hreturn, List.append_cons, List.append_cons front c t]
      exact ih (List.forall_mem_append.2 ⟨hfront, List.forall_mem_singleton.2
        ⟨hfeedEnd, hreturn⟩⟩)

/-- **Every text is a layout of what is read from it.** -/
theorem laidOut_checklistLines (t : Text) :
    (∀ line ∈ checklistLines (unifyNewlines t), IsEntry line) ∧
      LaidOut (checklistLines (unifyNewlines t)) t := by
  have hfeeds := checklistLines_unifyNewlines [] t
  rw [List.nil_append, List.nil_append] at hfeeds
  rw [hfeeds]
  exact laidOut_append_map_feed isUnended_nil t

/-- **A text is read as the lines that it is a layout of.** -/
theorem checklistLines_eq_iff {t : Text} {lines : List Text} :
    checklistLines (unifyNewlines t) = lines ↔
      (∀ line ∈ lines, IsEntry line) ∧ LaidOut lines t := by
  constructor
  · rintro rfl
    exact laidOut_checklistLines t
  · exact fun h => checklistLines_of_laidOut h.2 h.1

/-! ## Files -/

/-- A text without surrogates is one of characters. -/
theorem exists_ofString {t : Text} (h : ∀ c ∈ t, ∃ d : Char, c = d) :
    ∃ s : String, ofString s = t := by
  induction t with
  | nil => exact ⟨"", rfl⟩
  | cons c t ih =>
    obtain ⟨⟨d, rfl⟩, ht⟩ := List.forall_mem_cons.1 h
    obtain ⟨s, rfl⟩ := ih ht
    refine ⟨String.ofList (d :: s.toList), ?_⟩
    rw [ofString, String.toList_ofList]
    rfl

variable {h : Host} {path : Path} {lines : List Text}

/-- The file that is read holds characters, and they are a layout of the lines. -/
theorem exists_of_readChecklist (hread : readChecklist h path = .ok lines) :
    ∃ content : String, (∀ line ∈ lines, IsEntry line) ∧ LaidOut lines content := by
  obtain ⟨text, htext, hlines⟩ := readChecklist_eq_ok_iff.1 hread
  obtain ⟨bytes, -, hdecode⟩ := bind_eq_ok.1 htext
  obtain ⟨decoded, hdecoded, hunified⟩ := bind_eq_ok.1 hdecode
  obtain ⟨content, rfl⟩ := Utf8.exists_of_decodeBlocks (mapError_eq_ok.1 hdecoded)
  obtain rfl := Except.ok.inj hunified
  exact ⟨content, checklistLines_eq_iff.1 hlines⟩

/-- **Reading a checklist file.**  A file of characters is read as some lines exactly if they stand
for themselves and the characters are a layout of them: with blanks around them, blank lines between
them, and line ends of any kind.  And the lines that are read from a file, of whatever bytes, can be
written one a line, and are read again from every file that holds them so, in particular from one
that was written. -/
theorem readChecklist_iff_laidOut (h : Host) (path : Path) :
    (∀ (content : String) (lines : List Text),
      h.fileContent path = .ok (Utf8.encodeString content) →
        (readChecklist h path = .ok lines ↔
          (∀ line ∈ lines, IsEntry line) ∧ LaidOut lines content)) ∧
    ∀ lines, readChecklist h path = .ok lines →
      ∃ written : String, written = writtenLines lines ∧
        ∀ (other : Host) (place : Path),
          (other.fileContent place = .ok (Utf8.encodeString written) →
            readChecklist other place = .ok lines) ∧
          ∀ changed, other.withFile place (Utf8.encodeString written) = .ok changed →
            readChecklist changed place = .ok lines := by
  constructor
  · intro content lines hfile
    rw [readChecklist_of_fileContent hfile, Except.ok.injEq, checklistLines_eq_iff]
  · intro lines hread
    obtain ⟨content, hentries, hlaid⟩ := exists_of_readChecklist hread
    obtain ⟨written, hwritten⟩ : ∃ written : String, ofString written = writtenLines lines := by
      refine exists_ofString fun c hc => ?_
      obtain ⟨line, hline, hc⟩ := List.mem_flatMap.1 hc
      rcases List.mem_append.1 hc with hc | hc
      · obtain ⟨d, -, rfl⟩ := List.mem_map.1 (hlaid.mem hline hc)
        exact ⟨d, rfl⟩
      · exact ⟨'\n', List.mem_singleton.1 hc⟩
    have hagain {other : Host} {place : Path}
        (hfile : other.fileContent place = .ok (Utf8.encodeString written)) :
        readChecklist other place = .ok lines :=
      readChecklist_of_laidOut hfile (hwritten ▸ laidOut_writtenLines lines) hentries
    exact ⟨written, hwritten, fun other place => ⟨hagain, fun changed hchanged =>
      hagain (Host.fileContent_withFile hchanged)⟩⟩

/-- Two lines with blanks of several kinds around them, a blank line between them, each of the three
kinds of line ends, and none behind the last line.  They are written to a place where no file is. -/
theorem readChecklist_iff_laidOut_mixed :
    let content := "\u2028\x0bone two\u0085\r\n \r\t\n\u00a0three\x1c"
    let h : Host := { tree := ⟨[([Utf8.encodeString "rules"],
      .file (Utf8.encodeString content))]⟩ }
    let lines : List Text := ["one two", "three"]
    let bytes := Utf8.encodeString "one two\nthree\n"
    let changed : Host := { h with tree := h.tree.set [Utf8.encodeString "again"] (.file bytes) }
    h.fileContent (.ofText "rules") = .ok (Utf8.encodeString content) ∧
      ((∀ line ∈ lines, IsEntry line) ∧ LaidOut lines content) ∧
      readChecklist h (.ofText "rules") = .ok lines ∧
      h.withFile (.ofText "again") bytes = .ok changed ∧
      readChecklist changed (.ofText "again") = .ok lines := by
  intro content h lines bytes changed
  obtain ⟨hreads, hwrites⟩ := readChecklist_iff_laidOut h (.ofText "rules")
  have hfile : h.fileContent (.ofText "rules") = .ok (Utf8.encodeString content) := by rfl
  have htext : ofString content =
      ofString "\u2028\x0b" ++ ofString "one two" ++ ofString "\u0085" ++ .char '\r' ::
        (ofString "\n \r\t\n\u00a0" ++ ofString "three" ++ ofString "\x1c") := by
    decide +kernel
  have hlaid : (∀ line ∈ lines, IsEntry line) ∧ LaidOut lines content := by
    refine ⟨by decide +kernel, ?_⟩
    rw [htext]
    refine .line _ (by decide +kernel) (by decide +kernel) (.inr rfl) ?_
    exact .last _ (by decide +kernel) (by decide +kernel)
  have hread : readChecklist h (.ofText "rules") = .ok lines := (hreads content lines hfile).2 hlaid
  have hchanged : h.withFile (.ofText "again") bytes = .ok changed := by rfl
  obtain ⟨written, hwritten, hagain⟩ := hwrites lines hread
  obtain rfl : written = "one two\nthree\n" := ofString_inj.1 (hwritten.trans (by decide +kernel))
  exact ⟨hfile, hlaid, hread, hchanged, (hagain h (.ofText "again")).2 changed hchanged⟩

end ProjectAudit
