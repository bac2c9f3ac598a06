import ProjectAudit.Audit.Checklist
import ProjectAudit.Proofs.Files.Refusals
import ProjectAudit.Proofs.Text.Blocks
import ProjectAudit.Proofs.Text.Lines

/-!
# The lines of a checklist file

A checklist may be laid out in any way: with blank lines, with blanks around its lines, and with the
line ends of any system, or several of them.  What it asks for is the lines alone.

There are three things that the layout could change.  The reader turns the line ends into line
feeds, cuts at these, and trims.  All of them are blanks, and a blank that is put in front of a text
is never seen: either it opens a line that is blank, and such a line is passed over, or it is
trimmed off the first line.  The same goes for blanks behind a line.  So lines are read one after
the other, each with the blanks around it.

* `LaidOut`: the layouts of some lines.
* `checklistLines_of_laidOut`: the lines are read from each of them.
* `readChecklist_of_laidOut`: the same for a file.
-/

namespace ProjectAudit

open Text

/-- A line that stands for itself in a checklist: no blanks at its ends, and no line end in it. -/
structure IsEntry (line : Text) : Prop where
  head : ∃ c, line.head? = some c ∧ isBlank c = false
  last : ∃ c, line.getLast? = some c ∧ isBlank c = false
  unbroken : ∀ c ∈ line, c ≠ '\n' ∧ c ≠ '\r'

instance (line : Text) : Decidable (IsEntry line) :=
  decidable_of_iff
    ((∃ c ∈ line.head?, isBlank c = false) ∧ (∃ c ∈ line.getLast?, isBlank c = false) ∧
      ∀ c ∈ line, c ≠ '\n' ∧ c ≠ '\r')
    ⟨fun h => ⟨h.1, h.2.1, h.2.2⟩, fun h => ⟨h.head, h.last, h.unbroken⟩⟩

/-- Only blanks. -/
def IsBlank (t : Text) : Prop :=
  ∀ c ∈ t, isBlank c = true

instance (t : Text) : Decidable (IsBlank t) :=
  inferInstanceAs (Decidable (∀ c ∈ t, isBlank c = true))

/-- The layouts of lines in a text: with blanks between them, and among these a line end. -/
inductive LaidOut : List Text → Text → Prop
  | none {blanks : Text} (h : IsBlank blanks) : LaidOut [] blanks
  | last {front back : Text} (line : Text) (hfront : IsBlank front) (hback : IsBlank back) :
    LaidOut [line] (front ++ line ++ back)
  | line {front back rest : Text} {lines : List Text} {c : CodePoint} (line : Text)
    (hfront : IsBlank front) (hback : IsBlank back) (hend : c = '\n' ∨ c = '\r')
    (hrest : LaidOut lines rest) : LaidOut (line :: lines) (front ++ line ++ back ++ c :: rest)

/-! ## Trimming -/

/-- A blank in front of a text is trimmed off. -/
theorem Text.trim_cons_of_isBlank {c : CodePoint} (hc : isBlank c = true) (t : Text) :
    trim (c :: t) = trim t := by
  rw [trim, trimBy, List.dropWhile_cons_of_pos hc]
  rfl

/-- Blanks behind a text are trimmed off. -/
theorem IsEntry.trim_append {line : Text} (h : IsEntry line) {back : Text} (hback : IsBlank back) :
    trim (line ++ back) = line := by
  obtain ⟨first, hfirst, hfirstBlank⟩ := h.head
  obtain ⟨last, hlast, hlastBlank⟩ := h.last
  have hfront : (line ++ back).dropWhile isBlank = line ++ back := by
    cases line with
    | nil => cases hfirst
    | cons c line =>
      obtain rfl := Option.some.inj hfirst
      rw [List.cons_append, List.dropWhile_cons_of_neg (by simp [hfirstBlank])]
  have hreverse : line.reverse.dropWhile isBlank = line.reverse := by
    rw [← List.head?_reverse] at hlast
    cases hline : line.reverse with
    | nil => rfl
    | cons c r =>
      rw [hline] at hlast
      obtain rfl := Option.some.inj hlast
      rw [List.dropWhile_cons_of_neg (by simp [hlastBlank])]
  rw [trim, trimBy, hfront, List.reverse_append,
    List.dropWhile_append_of_pos fun c hc => hback c (List.mem_reverse.1 hc), hreverse,
    List.reverse_reverse]

/-! ## Cutting -/

theorem checklistLines_append_newline (a b : Text) :
    checklistLines (a ++ .char '\n' :: b) = checklistLines a ++ checklistLines b := by
  simp only [checklistLines, splitNewlines_append_newline, List.map_append, List.filter_append]

/-- **A blank in front of a text** is not seen. -/
theorem checklistLines_cons_of_isBlank {c : CodePoint} (hc : isBlank c = true) (t : Text) :
    checklistLines (c :: t) = checklistLines t := by
  by_cases hnewline : c = .char '\n'
  · subst hnewline
    exact checklistLines_append_newline [] t
  · rw [checklistLines, splitNewlines, if_neg hnewline, checklistLines]
    cases h : splitNewlines t with
    | nil => exact absurd h (splitNewlines_ne_nil t)
    | cons l ls => rw [consToFirst, List.map_cons, List.map_cons, trim_cons_of_isBlank hc]

theorem checklistLines_append_of_isBlank {front : Text} (hfront : IsBlank front) (t : Text) :
    checklistLines (front ++ t) = checklistLines t := by
  induction front with
  | nil => rfl
  | cons c front ih =>
    obtain ⟨hc, hfront⟩ := List.forall_mem_cons.1 hfront
    rw [List.cons_append, checklistLines_cons_of_isBlank hc, ih hfront]

theorem checklistLines_of_isBlank {t : Text} (h : IsBlank t) : checklistLines t = [] := by
  have hread := checklistLines_append_of_isBlank h []
  rwa [List.append_nil] at hread

/-- Blanks behind a line are not seen, those behind its first line feed because the lines that they
make are blank. -/
theorem IsEntry.checklistLines_append {line : Text} (h : IsEntry line) {back : Text}
    (hback : IsBlank back) : checklistLines (line ++ back) = [line] := by
  have hone {back : Text} (hback : IsBlank back) (hunbroken : ∀ c ∈ back, c ≠ '\n') :
      checklistLines (line ++ back) = [line] := by
    have hwhole : ∀ c ∈ line ++ back, c ≠ '\n' := List.forall_mem_append.2
      ⟨fun c hc => (h.unbroken c hc).1, hunbroken⟩
    obtain ⟨first, hfirst, -⟩ := h.head
    have hnonempty : line ≠ [] := by
      rintro rfl
      cases hfirst
    rw [checklistLines, splitNewlines_of_unbroken hwhole, List.map_singleton, h.trim_append hback,
      List.filter_cons_of_pos (by simp [hnonempty]), List.filter_nil]
  by_cases hnewline : .char '\n' ∈ back
  · obtain ⟨before, after, rfl, hbefore⟩ := List.eq_append_cons_of_mem hnewline
    obtain ⟨hbeforeBlank, hafter⟩ := List.forall_mem_append.1 hback
    rw [← List.append_assoc, checklistLines_append_newline,
      hone hbeforeBlank fun c hc heq => hbefore (heq ▸ hc),
      checklistLines_of_isBlank (List.forall_mem_cons.1 hafter).2]
    rfl
  · exact hone hback fun c hc heq => hnewline (heq ▸ hc)

/-! ## Line ends -/

/-- A carriage return as a line feed. -/
def feed (c : CodePoint) : CodePoint :=
  if c = '\r' then .char '\n' else c

theorem isBlank_feed {c : CodePoint} (hc : isBlank c = true) : isBlank (feed c) = true := by
  rw [feed]
  split
  · rfl
  · exact hc

theorem IsBlank.map_feed {t : Text} (h : IsBlank t) : IsBlank (t.map feed) := by
  intro c hc
  obtain ⟨c, hmem, rfl⟩ := List.mem_map.1 hc
  exact isBlank_feed (h c hmem)

theorem IsEntry.map_feed {line : Text} (h : IsEntry line) : line.map feed = line := by
  have hfeed : ∀ c ∈ line, feed c = id c := fun c hc => if_neg (h.unbroken c hc).2
  rw [List.map_congr_left hfeed, List.map_id]

/-- A line end of two code points makes one line more if each of them is a line feed, and this line
is blank. -/
theorem checklistLines_unifyNewlines (a t : Text) :
    checklistLines (a ++ unifyNewlines t) = checklistLines (a ++ t.map feed) := by
  induction t using unifyNewlines.induct generalizing a with
  | case1 => rw [unifyNewlines, List.map_nil]
  | case2 r ih =>
    have hread := ih []
    rw [List.nil_append, List.nil_append] at hread
    show checklistLines (a ++ .char '\n' :: unifyNewlines r) =
      checklistLines (a ++ .char '\n' :: .char '\n' :: r.map feed)
    rw [checklistLines_append_newline, checklistLines_append_newline, hread,
      checklistLines_cons_of_isBlank (by decide)]
  | case3 c r hnot ih =>
    rw [unifyNewlines.eq_3 c r hnot, List.map_cons, List.append_cons, ih, ← List.append_cons]
    rfl

/-! ## Files -/

theorem readChecklist_eq_setup_iff {h : Host} {path : Path} {f : SetupFailure} :
    readChecklist h path = .error (.setup f) ↔
      (∃ fault, h.readText Text.Utf8.decodeBlocks path = .error (.unreadable fault) ∧
        fault.isRefusal = true ∧ f = .checklistUnreadable path fault.message) ∨
      ∃ e, h.readText Text.Utf8.decodeBlocks path = .error (.undecodable e) ∧
        f = .checklistUnreadable path e.message := by
  rw [readChecklist]
  rcases h.readText Text.Utf8.decodeBlocks path with (fault | e) | text
  · cases hrefusal : fault.isRefusal <;> simp [hrefusal, @eq_comm _ f]
  · simp [@eq_comm _ f]
  · simp

theorem readChecklist_eq_ok_iff {h : Host} {path : Path} {lines : List Text} :
    readChecklist h path = .ok lines ↔
      ∃ text, h.readText Text.Utf8.decodeBlocks path = .ok text ∧ checklistLines text = lines := by
  rw [readChecklist]
  rcases h.readText Text.Utf8.decodeBlocks path with (fault | e) | text
  · cases hrefusal : fault.isRefusal <;> simp [hrefusal]
  · simp
  · simp

/-- **The lines that are laid out** are read, in their order. -/
theorem checklistLines_of_laidOut {lines : List Text} {text : Text} (h : LaidOut lines text)
    (hentries : ∀ line ∈ lines, IsEntry line) : checklistLines (unifyNewlines text) = lines := by
  have hfeeds := checklistLines_unifyNewlines [] text
  rw [List.nil_append, List.nil_append] at hfeeds
  rw [hfeeds]
  clear hfeeds
  induction h with
  | none hblanks => exact checklistLines_of_isBlank hblanks.map_feed
  | last line hfront hback =>
    have hline : IsEntry line := hentries line List.mem_cons_self
    rw [List.append_assoc, List.map_append, checklistLines_append_of_isBlank hfront.map_feed,
      List.map_append, hline.map_feed, hline.checklistLines_append hback.map_feed]
  | line line hfront hback hend hrest ih =>
    obtain ⟨hline, hlines⟩ := List.forall_mem_cons.1 hentries
    have hfeed {c : CodePoint} (hc : c = '\n' ∨ c = '\r') : feed c = .char '\n' := by
      rcases hc with rfl | rfl <;> rfl
    rw [List.append_assoc, List.append_assoc, List.map_append,
      checklistLines_append_of_isBlank hfront.map_feed, ← List.append_assoc, List.map_append,
      List.map_append, List.map_cons, hfeed hend, hline.map_feed, checklistLines_append_newline,
      hline.checklistLines_append hback.map_feed, ih hlines]
    rfl

/-- A checklist file of characters is read as the lines of its text. -/
theorem readChecklist_of_fileContent {h : Host} {path : Path} {content : String}
    (hfile : h.fileContent path = .ok (Utf8.encodeString content)) :
    readChecklist h path = .ok (checklistLines (unifyNewlines content)) := by
  have hread : h.readText Utf8.decodeBlocks path = .ok (unifyNewlines content) :=
    Host.readText_eq_ok_iff.2 ⟨_, _, hfile, Utf8.decodeBlocks_encodeString _, rfl⟩
  exact readChecklist_eq_ok_iff.2 ⟨_, hread, rfl⟩

/-- A checklist file asks for the lines that are laid out in it. -/
theorem readChecklist_of_laidOut {h : Host} {path : Path} {content : String} {lines : List Text}
    (hfile : h.fileContent path = .ok (Utf8.encodeString content))
    (hcontent : LaidOut lines content)
    (hentries : ∀ line ∈ lines, IsEntry line) : readChecklist h path = .ok lines := by
  rw [readChecklist_of_fileContent hfile, checklistLines_of_laidOut hcontent hentries]

end ProjectAudit
