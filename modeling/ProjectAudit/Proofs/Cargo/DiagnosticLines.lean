import ProjectAudit.Proofs.Cargo.Messages
import ProjectAudit.Proofs.Text.Scan

/-!
# Diagnostics line by line

What a build printed is cut into lines, and each line gives one diagnostic or none.  A line feed
between two texts may end a line, go together with a carriage return in front of it, or be an empty
line; whichever it is, what comes of the lines at its sides is what comes of them alone.  So the
diagnostics of texts with a line feed between them are those of the first text and then those of
the second one, and more output on further lines takes no diagnostic away.

Within a line that is not ended the same cannot be said: a message that is followed by more is no
JSON any longer, and what it reported is gone.

* `Cargo.Diagnostic.Reports`: the lines of standard output that give a diagnostic.
* `Cargo.Diagnostic.Announces`: the lines of standard error that give one.
* `Cargo.Diagnostic.ofOutput_newline_between`: a line feed between two texts.
* `Cargo.Diagnostic.collect_lines`: texts, single lines, and further lines.
-/

namespace ProjectAudit

namespace Cargo.Diagnostic

/-! ## Lines of standard error -/

/-- A code in brackets, or nothing. -/
def IsCode (code : Text) : Prop :=
  code = [] ∨ ∃ name : Text, name ≠ [] ∧ (∀ c ∈ name, Text.isWord c = true) ∧
    code = .char '[' :: (name ++ [.char ']'])

/-- The line begins with the word of a level, in small letters or capitals, and then a colon; a code
in brackets may stand between the two. -/
inductive OpensWith (line word : Text) : Prop
  | intro {level code rest : Text} (hlevel : level = "warning" ∨ level = "error")
    (hword : List.Forall₂ (fun w c => Text.sameLetter w c = true) level word)
    (hcode : IsCode code) (hline : line = word ++ (code ++ .char ':' :: rest))

/-- A line of standard error announces a diagnostic: it begins with the word of a level once it is
trimmed, and the whole of it is the text. -/
def Announces (line : Text) (d : Diagnostic) : Prop :=
  ∃ word, OpensWith (Text.trim line) word ∧ d = ⟨Text.lower word, Text.trim line⟩

/-- Reads a code and the colon behind it. -/
def afterColon? (s : Text) : Option Text :=
  (afterCode? s).bind (Text.afterWord? [.char ':'])

theorem afterColon?_eq_some_iff {s rest : Text} :
    afterColon? s = some rest ↔ ∃ code, IsCode code ∧ s = code ++ .char ':' :: rest := by
  constructor
  · intro h
    obtain ⟨s', hcode, hcolon⟩ := Option.bind_eq_some_iff.1 h
    obtain rfl := Text.afterWord?_eq_some hcolon
    rw [afterCode?.eq_def] at hcode
    split at hcode
    · obtain ⟨⟨name, s₁⟩, hname, hclose⟩ := Option.bind_eq_some_iff.1 hcode
      obtain ⟨hne, hall, rfl⟩ := Text.spanSome?_eq_some hname
      obtain rfl := Text.afterWord?_eq_some hclose
      refine ⟨.char '[' :: (name ++ [.char ']']), .inr ⟨name, hne, hall, rfl⟩, ?_⟩
      simp only [List.cons_append, List.append_assoc, List.nil_append]
    · obtain rfl := Option.some.inj hcode
      exact ⟨[], .inl rfl, rfl⟩
  · rintro ⟨code, rfl | ⟨name, hne, hall, rfl⟩, rfl⟩
    · rfl
    · have hspan : Text.spanSome? Text.isWord (name ++ .char ']' :: .char ':' :: rest) =
          some (name, .char ']' :: .char ':' :: rest) := by
        refine Text.spanSome?_append hne hall ?_
        rintro c ⟨⟩
        decide
      have htext : .char '[' :: (name ++ [.char ']']) ++ .char ':' :: rest =
          .char '[' :: (name ++ .char ']' :: .char ':' :: rest) := by
        simp only [List.cons_append, List.append_assoc, List.nil_append]
      rw [afterColon?, htext, afterCode?, hspan]
      rfl

/-- Reads the word of the given level. -/
def wordOf? (line level : Text) : Option Text :=
  (Text.afterCaseless? level line).bind fun taken => (afterColon? taken.2).map fun _ => taken.1

theorem levelWord?_eq_findSome? (line : Text) :
    levelWord? line = levels.findSome? (wordOf? line) := by
  rw [levelWord?]
  congr 1
  funext level
  rw [wordOf?]
  cases Text.afterCaseless? level line with
  | none => rfl
  | some taken =>
    rw [Option.bind_some, afterColon?]
    show (afterCode? taken.2).bind _ = _
    cases afterCode? taken.2 with
    | none => rfl
    | some rest =>
      show (Text.afterWord? [.char ':'] rest).bind _ = (Text.afterWord? [.char ':'] rest).map _
      cases Text.afterWord? [.char ':'] rest <;> rfl

theorem wordOf?_eq_some_iff {line level word : Text} :
    wordOf? line level = some word ↔
      List.Forall₂ (fun w c => Text.sameLetter w c = true) level word ∧
        ∃ code rest, IsCode code ∧ line = word ++ (code ++ .char ':' :: rest) := by
  rw [wordOf?, Option.bind_eq_some_iff]
  constructor
  · rintro ⟨⟨word', r⟩, htaken, hcolon⟩
    obtain ⟨rest, hrest, rfl⟩ := Option.map_eq_some_iff.1 hcolon
    obtain ⟨rfl, hword⟩ := Text.afterCaseless?_eq_some_iff.1 htaken
    obtain ⟨code, hcode, rfl⟩ := afterColon?_eq_some_iff.1 hrest
    exact ⟨hword, code, rest, hcode, rfl⟩
  · rintro ⟨hword, code, rest, hcode, rfl⟩
    have hrest : afterColon? (code ++ .char ':' :: rest) = some rest :=
      afterColon?_eq_some_iff.2 ⟨code, hcode, rfl⟩
    exact ⟨_, Text.afterCaseless?_eq_some_iff.2 ⟨rfl, hword⟩, by rw [hrest]; rfl⟩

/-- The words of two levels begin with different letters. -/
theorem wordOf?_warning_of_error {line word : Text} (h : wordOf? line "error" = some word) :
    wordOf? line "warning" = none := by
  rw [Option.eq_none_iff_forall_ne_some]
  intro other hother
  obtain ⟨hword, code, rest, -, rfl⟩ := wordOf?_eq_some_iff.1 h
  obtain ⟨hotherWord, code', rest', -, hline⟩ := wordOf?_eq_some_iff.1 hother
  obtain ⟨c, word, he, -, rfl⟩ := List.forall₂_cons_left_iff.1 hword
  obtain ⟨c', other, hw, -, rfl⟩ := List.forall₂_cons_left_iff.1 hotherWord
  obtain ⟨rfl, -⟩ := List.cons.inj hline
  have hkeys : Text.caselessKey 'w' = Text.caselessKey 'e' :=
    (beq_iff_eq.1 hw).trans (beq_iff_eq.1 he).symm
  revert hkeys
  decide

theorem levelWord?_eq_some_iff {line word : Text} :
    levelWord? line = some word ↔ OpensWith line word := by
  rw [levelWord?_eq_findSome?]
  constructor
  · intro h
    obtain ⟨level, hlevel, hword⟩ := List.exists_of_findSome?_eq_some h
    obtain ⟨hword, code, rest, hcode, hline⟩ := wordOf?_eq_some_iff.1 hword
    refine .intro ?_ hword hcode hline
    simpa [levels] using hlevel
  · rintro ⟨hlevel, hword, hcode, hline⟩
    have hread := wordOf?_eq_some_iff.2 ⟨hword, _, _, hcode, hline⟩
    rw [levels, List.findSome?_cons]
    rcases hlevel with rfl | rfl
    · rw [hread]
    · rw [wordOf?_warning_of_error hread, List.findSome?_cons, hread]

/-- A line of standard error gives the diagnostic that it announces. -/
theorem ofErrorLine?_eq_some_iff {line : Text} {d : Diagnostic} :
    ofErrorLine? line = some d ↔ Announces line d := by
  rw [ofErrorLine?, Option.map_eq_some_iff]
  exact exists_congr fun word => and_congr levelWord?_eq_some_iff eq_comm

/-! ## Lines of standard output -/

/-- A line of standard output reports a diagnostic: once it is trimmed it begins with a brace, it is
JSON, and the message carries the diagnostic. -/
def Reports (line : Text) (d : Diagnostic) : Prop :=
  (Text.trim line).head? = some (.char '\x7b') ∧
    ∃ message, Json.read (Text.trim line) = .ok message ∧ Carries message d

/-- A line of standard output gives the diagnostic that it reports. -/
theorem ofOutputLine_eq_some_iff {line : Text} {d : Diagnostic} :
    ofOutputLine line = .ok (some d) ↔ Reports line d := by
  rw [ofOutputLine, Reports]
  by_cases hbrace : (Text.trim line).head? = some (.char '\x7b')
  · simp only [hbrace, true_and]
    cases hread : Json.read (Text.trim line) with
    | ok message => simp [ofMessage?_eq_some_iff]
    | error e => cases e <;> simp
  · simp [hbrace]

/-- The reading of a line is given up only for a limit of the reader. -/
theorem ofOutputLine_eq_error {line : Text} {l : Json.Limit} (h : ofOutputLine line = .error l) :
    Json.read (Text.trim line) = .error (.limit l) := by
  rw [ofOutputLine] at h
  split at h
  · split at h
    · cases h
    · cases h
    · rename_i hread
      rw [hread, Except.error.inj h]
  · cases h

/-! ## A line feed between two texts -/

/-- The diagnostics of standard output around a line feed. -/
theorem ofOutput_newline_between (a b : Text) :
    ofOutput (a ++ .char '\n' :: b) = do
      let first ← ofOutput a
      let rest ← ofOutput b
      return first ++ rest := by
  -- between the lines of the two texts stands none or an empty one, which reports nothing
  obtain ⟨blank, hblank, hlines⟩ := Text.splitLines_newline_between a b
  have hempty : blank.mapM ofOutputLine = .ok (blank.map fun _ => none) := by
    rcases hblank with rfl | rfl <;> rfl
  rw [ofOutput, ofOutput, ofOutput, hlines, List.mapM_append, List.mapM_append, hempty]
  cases (Text.splitLines a).mapM ofOutputLine with
  | error l => rfl
  | ok first =>
    cases (Text.splitLines b).mapM ofOutputLine with
    | error l => rfl
    | ok rest =>
      refine congrArg Except.ok ?_
      show (first ++ blank.map (fun _ => none) ++ rest).filterMap id = _
      rcases hblank with rfl | rfl <;> simp [List.filterMap_append]

theorem ofOutput_newline_between_eq_ok {a b : Text} {found : List Diagnostic} :
    ofOutput (a ++ .char '\n' :: b) = .ok found ↔
      ∃ first rest, ofOutput a = .ok first ∧ ofOutput b = .ok rest ∧ found = first ++ rest := by
  rw [ofOutput_newline_between, bind_eq_ok]
  simp only [bind_eq_ok]
  constructor
  · rintro ⟨first, hfirst, rest, hrest, hdone⟩
    exact ⟨first, rest, hfirst, hrest, (Except.ok.inj hdone).symm⟩
  · rintro ⟨first, rest, hfirst, hrest, rfl⟩
    exact ⟨first, hfirst, rest, hrest, rfl⟩

/-- The diagnostics of standard error around a line feed. -/
theorem ofErrors_newline_between (s t : Text) :
    ofErrors (s ++ .char '\n' :: t) = ofErrors s ++ ofErrors t := by
  obtain ⟨blank, hblank, hlines⟩ := Text.splitLines_newline_between s t
  have hempty : blank.filterMap ofErrorLine? = [] := by
    rcases hblank with rfl | rfl <;> rfl
  rw [ofErrors, ofErrors, ofErrors, hlines, List.filterMap_append, List.filterMap_append, hempty,
    List.append_nil]

theorem collect_nil_output (stderr : Text) : collect [] stderr = .ok (ofErrors stderr) := rfl

theorem collect_nil_errors (stdout : Text) : collect stdout [] = ofOutput stdout := by
  rw [collect]
  cases ofOutput stdout with
  | error l => rfl
  | ok found => exact congrArg Except.ok (List.append_nil found)

/-- The diagnostics of both streams around line feeds, each part taken alone. -/
theorem collect_newline_between (a b s t : Text) :
    collect (a ++ .char '\n' :: b) (s ++ .char '\n' :: t) = do
      let first ← collect a []
      let second ← collect b []
      let third ← collect [] s
      let fourth ← collect [] t
      return first ++ second ++ third ++ fourth := by
  rw [collect_nil_errors, collect_nil_errors, collect_nil_output, collect_nil_output, collect,
    ofOutput_newline_between, ofErrors_newline_between]
  cases ofOutput a with
  | error l => rfl
  | ok first =>
    cases ofOutput b with
    | error l => rfl
    | ok second => exact congrArg Except.ok (List.append_assoc _ _ _).symm

/-! ## Single lines and further lines -/

/-- One line of standard output. -/
theorem ofOutput_line {line : Text} (hline : Text.Unbroken line) :
    ofOutput line = (ofOutputLine line).map Option.toList := by
  by_cases hsome : line = []
  · subst hsome
    rfl
  · rw [ofOutput, Text.splitLines_of_unbroken hline hsome, List.mapM_cons]
    rcases ofOutputLine line with l | _ | d <;> rfl

/-- One line of standard error. -/
theorem ofErrors_line {line : Text} (hline : Text.Unbroken line) :
    ofErrors line = (ofErrorLine? line).toList := by
  by_cases hsome : line = []
  · subst hsome
    rfl
  · rw [ofErrors, Text.splitLines_of_unbroken hline hsome]
    cases hread : ofErrorLine? line with
    | none => exact List.filterMap_cons_none hread
    | some d => exact List.filterMap_cons_some hread

/-- The second text is the first one, with more behind the end of its last line or on a line of its
own. -/
inductive ContinuedBy (a : Text) : Text → Prop
  | same : ContinuedBy a a
  | line (b : Text) : ContinuedBy a (a ++ .char '\n' :: b)
  | rest {front : Text} (hend : a = front ++ [.char '\n']) (b : Text) : ContinuedBy a (a ++ b)

/-- More output behind a line end leaves the diagnostics that are there. -/
theorem ofOutput_continuedBy {a a' : Text} (h : ContinuedBy a a') {found found' : List Diagnostic}
    (hfound : ofOutput a = .ok found) (hfound' : ofOutput a' = .ok found') :
    ∃ more, found' = found ++ more := by
  cases h with
  | same => exact ⟨[], by rw [List.append_nil, Except.ok.inj (hfound'.symm.trans hfound)]⟩
  | line b =>
    obtain ⟨first, more, hfirst, -, rfl⟩ := ofOutput_newline_between_eq_ok.1 hfound'
    exact ⟨more, by rw [Except.ok.inj (hfirst.symm.trans hfound)]⟩
  | @rest front hend b =>
    subst hend
    rw [List.append_assoc, List.singleton_append] at hfound'
    obtain ⟨first, nothing, hfirst, hnothing, rfl⟩ := ofOutput_newline_between_eq_ok.1 hfound
    obtain ⟨first', more, hfirst', -, rfl⟩ := ofOutput_newline_between_eq_ok.1 hfound'
    have hempty : nothing = [] := (Except.ok.inj hnothing).symm
    exact ⟨more, by rw [Except.ok.inj (hfirst'.symm.trans hfirst), hempty, List.append_nil]⟩

theorem ofErrors_continuedBy {s s' : Text} (h : ContinuedBy s s') :
    ∃ more, ofErrors s' = ofErrors s ++ more := by
  cases h with
  | same => exact ⟨[], (List.append_nil _).symm⟩
  | line b => exact ⟨ofErrors b, ofErrors_newline_between s b⟩
  | @rest front hend b =>
    subst hend
    refine ⟨ofErrors b, ?_⟩
    have hempty : ofErrors [] = [] := rfl
    rw [List.append_assoc, List.singleton_append, ofErrors_newline_between,
      ofErrors_newline_between, hempty, List.append_nil]

/-- **The diagnostics of a build, line by line**.

With a line feed between two texts on each stream, the diagnostics are those of the four texts, each
taken alone.  A line of standard output gives one diagnostic if it reports one and none else, unless
it goes beyond a limit of the reader; a line of standard error gives one if it announces one and
none else.  So a build with diagnostics has some however its streams are continued. -/
theorem collect_lines :
    (∀ a b s t : Text, collect (a ++ .char '\n' :: b) (s ++ .char '\n' :: t) = do
      let first ← collect a []
      let second ← collect b []
      let third ← collect [] s
      let fourth ← collect [] t
      return first ++ second ++ third ++ fourth) ∧
    (∀ line : Text, Text.Unbroken line →
      (∃ l, collect line [] = .error l ∧ Json.read (Text.trim line) = .error (.limit l)) ∨
      (∃ d, collect line [] = .ok [d] ∧ Reports line d) ∨
      collect line [] = .ok [] ∧ ∀ d, ¬ Reports line d) ∧
    (∀ line : Text, Text.Unbroken line →
      (∃ d, collect [] line = .ok [d] ∧ Announces line d) ∨
      collect [] line = .ok [] ∧ ∀ d, ¬ Announces line d) ∧
    ∀ {a a' s s' : Text} {found found' : List Diagnostic}, ContinuedBy a a' → ContinuedBy s s' →
      collect a s = .ok found → collect a' s' = .ok found' → found ≠ [] → found' ≠ [] := by
  refine ⟨collect_newline_between, ?_, ?_, ?_⟩
  · intro line hline
    rw [collect_nil_errors, ofOutput_line hline]
    rcases hread : ofOutputLine line with l | _ | d
    · exact .inl ⟨l, rfl, ofOutputLine_eq_error hread⟩
    · refine .inr (.inr ⟨rfl, fun d hd => ?_⟩)
      cases hread.symm.trans (ofOutputLine_eq_some_iff.2 hd)
    · exact .inr (.inl ⟨d, rfl, ofOutputLine_eq_some_iff.1 hread⟩)
  · intro line hline
    rw [collect_nil_output, ofErrors_line hline]
    cases hread : ofErrorLine? line with
    | none =>
      refine .inr ⟨rfl, fun d hd => ?_⟩
      cases hread.symm.trans (ofErrorLine?_eq_some_iff.2 hd)
    | some d => exact .inl ⟨d, rfl, ofErrorLine?_eq_some_iff.1 hread⟩
  · intro a a' s s' found found' ha hs hfound hfound' hsome
    obtain ⟨output, houtput, rfl⟩ := map_eq_ok.1 hfound
    obtain ⟨output', houtput', rfl⟩ := map_eq_ok.1 hfound'
    obtain ⟨moreOutput, rfl⟩ := ofOutput_continuedBy ha houtput houtput'
    obtain ⟨moreErrors, herrors⟩ := ofErrors_continuedBy hs
    intro hnone
    simp only [herrors, List.append_eq_nil_iff] at hnone
    exact hsome (List.append_eq_nil_iff.2 ⟨hnone.1.1, hnone.2.1⟩)

/-- A warning on standard error, and the same with more output behind it. -/
theorem collect_lines_warning :
    collect [] "warning[E01]: unused" =
        .ok [⟨"warning", "warning[E01]: unused"⟩] ∧
      ∀ found, collect [] (("warning[E01]: unused" : Text) ++ .char '\n' :: ("Finished" : Text)) =
        .ok found → found ≠ [] := by
  have halone : collect [] "warning[E01]: unused" = .ok [⟨"warning", "warning[E01]: unused"⟩] := by
    decide +kernel
  refine ⟨halone, fun found hfound => ?_⟩
  exact collect_lines.2.2.2 .same (.line _) halone hfound (List.cons_ne_nil _ _)

end Cargo.Diagnostic

end ProjectAudit
