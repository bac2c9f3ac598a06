import ProjectAudit.Cargo.Diagnostics
import ProjectAudit.Proofs.Json.OneLine
import ProjectAudit.Proofs.Json.Plain

/-!
# The messages of a build

A build prints one JSON message a line, and a message of the compiler may carry a diagnostic.  The
diagnostics are those of the messages, in their order, as long as each message is in one line for
the reader as it is for the writer.

The two do not always agree.  The writer ends a line with a line feed and keeps these out of its
strings, but it may leave other line boundaries in them: U+0085, U+2028 and U+2029 are no control
characters of ASCII.  The reader cuts the message at each of them.  What then becomes of it is
decided by the side on which the pieces begin and end (`Json.Stands`).  The first one ends inside of
a string, so it cannot be read; all others begin there, and what might be read of them has no
field `reason`.  A message that is cut is lost, and it leaves nothing else in its place.

* `Cargo.Diagnostic.Carries`: what a message has to say to carry a diagnostic.
* `Cargo.Diagnostic.collect_messages`: the diagnostics are those of the messages that are not cut.
-/

namespace ProjectAudit

namespace Cargo.Diagnostic

open Json

/-! ## The pieces of a message -/

theorem ofMessage?_eq_none {v : Json} (h : v.field? "reason" = none) : ofMessage? v = none := by
  rw [ofMessage?]
  split
  · rw [if_neg]
    rintro ⟨hreason, -⟩
    rw [Json.get, h] at hreason
    cases hreason
  · rfl

/-- A piece that begins or ends inside of a string gives no diagnostic. -/
theorem eq_none_of_stands {q q' : Bool} {t : Text} (ht : Stands q q' t)
    (hinside : q = true ∨ q' = true) {found : Option Diagnostic}
    (h : ofOutputLine t = .ok found) : found = none := by
  rw [ofOutputLine] at h
  split at h
  · split at h
    · rename_i message hread
      cases h
      obtain ⟨hsides, hreason⟩ := read_stands ht.trim hread
      have hq : q = true := hinside.elim id fun hq' => hsides.trans hq'
      exact ofMessage?_eq_none (hreason hq)
    · cases h
      rfl
    · cases h
  · cases h
    rfl

/-! ## One message -/

/-- A message that is not cut gives its diagnostic. -/
theorem ofOutput_whole {v : Json} {t : Text} (h : SpellsLine v t) (hwhole : ¬ HoldsBoundary t) :
    ofOutput (t ++ [.char '\n']) = .ok (ofMessage? v).toList := by
  have hline : ofOutputLine t = .ok (ofMessage? v) := by
    rw [ofOutputLine, h.spells.trim_eq]
    split
    · rw [read_of_spells h.spells]
    · rename_i hhead
      -- only an object begins with a brace, and only an object has fields
      have hfield : v.field? "reason" = none := by
        cases h.spells with
        | atom hatom => exact hatom.isWord.2 _
        | noFields => exact absurd rfl hhead
        | obj => exact absurd rfl hhead
        | _ => rfl
      rw [ofMessage?_eq_none hfield]
  rw [ofOutput, Text.splitLines_append_boundary (h.unbroken hwhole) (by decide) (by decide),
    Text.splitLines, List.mapM_cons, hline]
  cases ofMessage? v <;> rfl

/-- A message that is cut gives nothing, if the reader gets through its pieces. -/
theorem ofOutput_cut {v : Json} {t : Text} (h : SpellsLine v t) (hcut : HoldsBoundary t)
    {found : List Diagnostic} (hfound : ofOutput (t ++ [.char '\n']) = .ok found) : found = [] := by
  rcases h.spells.stands.pieces h.newline h.carriageReturn with
    hwhole | ⟨first, rest, hsplit, hfirst, hrest⟩
  · obtain ⟨c, hc, hraw⟩ := hcut
    cases (hwhole c hc).symm.trans (isBoundary_of_mem_rawBoundaries hraw)
  · rw [ofOutput, hsplit] at hfound
    obtain ⟨answers, hanswers, rfl⟩ := map_eq_ok.1 hfound
    refine List.filterMap_eq_nil_iff.2 fun answer hanswer => ?_
    obtain ⟨piece, hpiece, hread⟩ := exists_of_mem_of_mapM_eq_ok hanswers hanswer
    rcases List.mem_cons.1 hpiece with rfl | hpiece
    · exact eq_none_of_stands hfirst (.inr rfl) hread
    · obtain ⟨q', hinside⟩ := hrest piece hpiece
      exact eq_none_of_stands hinside (.inl rfl) hread

/-! ## All messages -/

theorem ofOutput_append_newline {a : Text} (ha : .char '\r' ∉ a) (b : Text) :
    ofOutput (a ++ .char '\n' :: b) = do
      let first ← ofOutput (a ++ [.char '\n'])
      let rest ← ofOutput b
      return first ++ rest := by
  rw [ofOutput, ofOutput, ofOutput, Text.splitLines_append_newline ha, List.mapM_append]
  cases (Text.splitLines (a ++ [.char '\n'])).mapM ofOutputLine with
  | error l => rfl
  | ok first =>
    cases (Text.splitLines b).mapM ofOutputLine with
    | error l => rfl
    | ok rest => exact congrArg Except.ok List.filterMap_append

/-- The text of messages, each with its own. -/
def messagesText (lines : List (Json × Text)) : Text :=
  lines.flatMap fun line => line.2 ++ [.char '\n']

theorem messagesText_cons (line : Json × Text) (lines : List (Json × Text)) :
    messagesText (line :: lines) = line.2 ++ .char '\n' :: messagesText lines := by
  rw [messagesText, List.flatMap_cons, List.append_assoc]
  rfl

theorem ofOutput_messages_whole {lines : List (Json × Text)}
    (hlines : ∀ line ∈ lines, SpellsLine line.1 line.2)
    (hwhole : ∀ line ∈ lines, ¬ HoldsBoundary line.2) :
    ofOutput (messagesText lines) = .ok (lines.filterMap fun line => ofMessage? line.1) := by
  induction lines with
  | nil => rfl
  | cons line lines ih =>
    obtain ⟨hline, hlines⟩ := List.forall_mem_cons.1 hlines
    obtain ⟨hfirst, hwhole⟩ := List.forall_mem_cons.1 hwhole
    rw [messagesText_cons, ofOutput_append_newline hline.carriageReturn,
      ofOutput_whole hline hfirst, ih hlines hwhole, List.filterMap_cons]
    cases ofMessage? line.1 <;> rfl

theorem ofOutput_messages {lines : List (Json × Text)}
    (hlines : ∀ line ∈ lines, SpellsLine line.1 line.2) {found : List Diagnostic}
    (hfound : ofOutput (messagesText lines) = .ok found) :
    found = (lines.filter fun line => ¬ HoldsBoundary line.2).filterMap
      fun line => ofMessage? line.1 := by
  induction lines generalizing found with
  | nil =>
    obtain rfl := Except.ok.inj hfound
    rfl
  | cons line lines ih =>
    obtain ⟨hline, hlines⟩ := List.forall_mem_cons.1 hlines
    rw [messagesText_cons, ofOutput_append_newline hline.carriageReturn] at hfound
    obtain ⟨first, hfirst, hfound⟩ := bind_eq_ok.1 hfound
    obtain ⟨rest, hrest, hfound⟩ := bind_eq_ok.1 hfound
    obtain rfl := Except.ok.inj hfound
    rw [ih hlines hrest]
    by_cases hcut : HoldsBoundary line.2
    · rw [ofOutput_cut hline hcut hfirst, List.filter_cons_of_neg (by simpa using hcut)]
      rfl
    · rw [ofOutput_whole hline hcut] at hfirst
      obtain rfl := Except.ok.inj hfirst
      rw [List.filter_cons_of_pos (by simpa using hcut), List.filterMap_cons]
      cases ofMessage? line.1 <;> rfl

/-! ## What a message says -/

/-- A message carries a diagnostic: it is one of the compiler, and the message inside of it has one
of the two levels.  The text is the rendered one, or the plain one if that is nothing. -/
inductive Carries : Json → Diagnostic → Prop
  | intro {fields inner : List (Text × Json)} {level : Text}
    (hreason : fieldOf? "reason" fields = some (.str "compiler-message"))
    (hmessage : fieldOf? "message" fields = some (.obj inner))
    (hlevel : fieldOf? "level" inner = some (.str level))
    (hknown : level = "warning" ∨ level = "error") :
    Carries (.obj fields) ⟨level, (if (Json.get "rendered" (.obj inner)).isEmptyValue
      then Json.get "message" (.obj inner) else Json.get "rendered" (.obj inner)).textOrEmpty⟩

theorem textOrEmpty_str {level : Text} (hknown : level = "warning" ∨ level = "error") :
    (Json.str level).textOrEmpty = level := by
  rcases hknown with rfl | rfl <;> rfl

/-- The text of a value is a level only if the value is that string. -/
theorem eq_str_of_textOrEmpty {v : Json} {level : Text} (h : v.textOrEmpty = level)
    (hknown : level = "warning" ∨ level = "error") : v = .str level := by
  have hplain : v.plainText = level := by
    rw [Json.textOrEmpty] at h
    split at h
    · rcases hknown with rfl | rfl <;> cases h
    · exact h
  apply eq_str_of_plainText hplain
  all_goals
    rcases hknown with rfl | rfl <;> decide

/-- The reader takes a message for what it is. -/
theorem ofMessage?_eq_some_iff {v : Json} {d : Diagnostic} :
    ofMessage? v = some d ↔ Carries v d := by
  have hlevels : ∀ level : Text,
      levels.contains level = true ↔ level = "warning" ∨ level = "error" := fun level => by
    simp [levels]
  constructor
  · intro h
    rw [ofMessage?] at h
    split at h
    · rename_i inner hinner
      dsimp only at h
      split at h
      · rename_i hcondition
        obtain ⟨hreason, hlevel⟩ := hcondition
        obtain rfl := Option.some.inj h
        have hknown := (hlevels _).1 hlevel
        have hstr := eq_str_of_textOrEmpty rfl hknown
        obtain ⟨fields, rfl, hmessage⟩ := exists_of_get_eq hinner nofun
        obtain ⟨_, hfields, hreason⟩ := exists_of_get_eq (str?_eq_some.1 hreason) nofun
        obtain rfl := Json.obj.inj hfields
        obtain ⟨_, hfields, hlevel⟩ := exists_of_get_eq hstr nofun
        obtain rfl := Json.obj.inj hfields
        exact .intro hreason hmessage hlevel hknown
      · cases h
    · cases h
  · rintro ⟨hreason, hmessage, hlevel, hknown⟩
    rw [ofMessage?, get_obj hmessage]
    dsimp only
    have htext : (Json.str _).textOrEmpty = _ := textOrEmpty_str hknown
    rw [get_obj hreason, get_obj hlevel, htext, if_pos ⟨rfl, (hlevels _).2 hknown⟩]

/-! ## Messages with a rendered text -/

/-- The fields inside of a message of the compiler, as a writer with few escapes has them. -/
def innerFields (level rendered : Text) : List (Text × Json × Text) :=
  [("level", .str level, rawString level), ("rendered", .str rendered, rawString rendered)]

/-- The fields of the message itself. -/
def outerFields (level rendered : Text) : List (Text × Json × Text) :=
  [("reason", .str "compiler-message", rawString "compiler-message"),
    ("message", .obj (putFields [] (innerFields level rendered)),
      rawObject (innerFields level rendered))]

/-- A message of the compiler. -/
def compilerMessage (level rendered : Text) : Json :=
  .obj (putFields [] (outerFields level rendered))

/-- The message as a writer with few escapes has it. -/
def compilerLine (level rendered : Text) : Text :=
  rawObject (outerFields level rendered)

theorem spellsLine_compilerLine (level rendered : Text) :
    SpellsLine (compilerMessage level rendered) (compilerLine level rendered) := by
  have hinner : Spells (maxDepth - 1) (.obj (putFields [] (innerFields level rendered)))
      (rawObject (innerFields level rendered)) :=
    spells_rawObject (List.cons_ne_nil _ _) (by simp [innerFields, spells_rawString])
  have hprinted : Printed (rawObject (innerFields level rendered)) :=
    printed_rawObject (by simp [innerFields, printed_rawString])
  have houter : Spells maxDepth (compilerMessage level rendered) (compilerLine level rendered) :=
    spells_rawObject (List.cons_ne_nil _ _)
      (List.forall_mem_cons.2 ⟨spells_rawString _, List.forall_mem_singleton.2 hinner⟩)
  exact houter.spellsLine (printed_rawObject (by simp [outerFields, printed_rawString, hprinted]))

theorem holdsBoundary_compilerLine {level rendered : Text}
    (hknown : level = "warning" ∨ level = "error") :
    HoldsBoundary (compilerLine level rendered) ↔ HoldsBoundary rendered := by
  have hlevel : ¬ HoldsBoundary level := by
    rcases hknown with rfl | rfl <;> decide
  have hnames : ¬ HoldsBoundary "reason" ∧ ¬ HoldsBoundary "compiler-message" ∧
      ¬ HoldsBoundary "message" ∧ ¬ HoldsBoundary "level" ∧ ¬ HoldsBoundary "rendered" := by decide
  simp [compilerLine, holdsBoundary_rawObject, holdsBoundary_rawString, outerFields, innerFields,
    hlevel, hnames]

theorem carries_compilerMessage {level : Text} (hknown : level = "warning" ∨ level = "error")
    (rendered : Text) : Carries (compilerMessage level rendered) ⟨level, rendered⟩ := by
  have hcarries : Carries (compilerMessage level rendered) ⟨level, _⟩ :=
    .intro rfl rfl rfl hknown
  -- the text of an empty rendered text is that of the absent field `message`, which is empty too
  cases rendered with
  | nil => exact hcarries
  | cons c r => exact hcarries

/-! ## The diagnostics of a build -/

theorem collect_of_ofOutput {stdout : Text} {found : List Diagnostic} :
    collect stdout [] = .ok found ↔ ofOutput stdout = .ok found := by
  have herrors : ofErrors [] = [] := rfl
  rw [collect, map_eq_ok]
  constructor
  · rintro ⟨output, houtput, rfl⟩
    rw [houtput, herrors, List.append_nil]
  · intro h
    exact ⟨found, h, by rw [herrors, List.append_nil]⟩

/-- **The diagnostics of messages** that are each on a line: one for every message that carries one,
in their order, if no message is cut.  Those that are cut are lost, and nothing comes in their
place. -/
theorem collect_messages {lines : List (Json × Text)}
    (hlines : ∀ line ∈ lines, SpellsLine line.1 line.2) :
    (∀ v d, ofMessage? v = some d ↔ Carries v d) ∧
      ((∀ line ∈ lines, ¬ HoldsBoundary line.2) →
        collect (messagesText lines) [] = .ok (lines.filterMap fun line => ofMessage? line.1)) ∧
      ∀ found, collect (messagesText lines) [] = .ok found →
        found = (lines.filter fun line => ¬ HoldsBoundary line.2).filterMap
          fun line => ofMessage? line.1 :=
  ⟨fun _ _ => ofMessage?_eq_some_iff,
    fun hwhole => collect_of_ofOutput.2 (ofOutput_messages_whole hlines hwhole),
    fun _ hfound => ofOutput_messages hlines (collect_of_ofOutput.1 hfound)⟩

/-- A warning and an error, each on its line. -/
theorem collect_messages_two :
    let lines := [(compilerMessage "warning" "unused", compilerLine "warning" "unused"),
      (compilerMessage "error" "expected `u8`", compilerLine "error" "expected `u8`")]
    (∀ line ∈ lines, SpellsLine line.1 line.2) ∧ (∀ line ∈ lines, ¬ HoldsBoundary line.2) ∧
      collect (messagesText lines) [] =
        .ok [⟨"warning", "unused"⟩, ⟨"error", "expected `u8`"⟩] := by
  intro lines
  have hlines : ∀ line ∈ lines, SpellsLine line.1 line.2 :=
    List.forall_mem_cons.2 ⟨spellsLine_compilerLine _ _,
      List.forall_mem_singleton.2 (spellsLine_compilerLine _ _)⟩
  have hwhole : ∀ line ∈ lines, ¬ HoldsBoundary line.2 :=
    List.forall_mem_cons.2 ⟨(holdsBoundary_compilerLine (.inl rfl)).not.2 (by decide),
      List.forall_mem_singleton.2 ((holdsBoundary_compilerLine (.inr rfl)).not.2 (by decide))⟩
  exact ⟨hlines, hwhole, ((collect_messages hlines).2.1 hwhole).trans (by decide +kernel)⟩

/-- A warning with U+2028 in its text is lost. -/
theorem collect_lineSeparator :
    SpellsLine (compilerMessage "warning" "a\u2028b") (compilerLine "warning" "a\u2028b") ∧
      Carries (compilerMessage "warning" "a\u2028b") ⟨"warning", "a\u2028b"⟩ ∧
      collect (compilerLine "warning" "a\u2028b" ++ [.char '\n']) [] = .ok [] :=
  ⟨spellsLine_compilerLine _ _, carries_compilerMessage (.inl rfl) _, by decide +kernel⟩

end Cargo.Diagnostic

end ProjectAudit
