import ProjectAudit.Proofs.Audit.ChecklistFile
import ProjectAudit.Proofs.CommandLine.Flaws

/-!
# The listing of rules as a checklist

The program lists the rules that a checklist may name, one a line, so that a checklist can be put
together from its lines.  In the listing the optional rules are marked.  A checklist is read without
regard to the mark: a line asks for a rule if it is the description of the rule, and with the mark
behind it, it is not.

So lines of default rules may be taken over as they are, in any order and layout, and select the
rules that they were printed for.  A line of an optional rule does not describe any rule.

* `CommandLine.listing_eq`: what the program lists.
* `checklistRules_of_known`: what a checklist selects.
* `checklistRules_listed`: what a checklist selects that is made of listed lines.
* `checklistRules_listed_optional`: a listed line that selects nothing.
-/

namespace ProjectAudit

open Run

namespace BuiltIn

/-- The line by which a rule is listed. -/
def listedLine (rule : BuiltIn) : Text :=
  rule.description ++ if rule ∈ defaults then "" else " (optional)"

theorem mem_all (rule : BuiltIn) : rule ∈ all := by
  cases rule <;> decide

theorem listedLine_of_mem_defaults {rule : BuiltIn} (h : rule ∈ defaults) :
    rule.listedLine = rule.description := by
  rw [listedLine, if_pos h]
  exact List.append_nil _

theorem isEntry_listedLine (rule : BuiltIn) : IsEntry rule.listedLine := by
  cases rule <;> decide +kernel

/-- Rules are told apart by their descriptions. -/
theorem description_inj {a b : BuiltIn} :
    Text.ofString a.description = Text.ofString b.description ↔ a = b := by
  rw [Text.ofString_inj]
  cases a <;> cases b <;> simp [description]

/-- A rule that is described as a default one is one. -/
theorem exists_defaults_iff {rule : BuiltIn} :
    (∃ other ∈ Rule.defaults, other.description = Text.ofString rule.description) ↔
      rule ∈ defaults := by
  constructor
  · rintro ⟨_, hmem, heq⟩
    obtain ⟨other, hother, rfl⟩ := List.mem_map.1 hmem
    exact description_inj.1 heq ▸ hother
  · exact fun hmem => ⟨_, List.mem_map_of_mem hmem, rfl⟩

theorem listedLine_of_mem_optional {rule : BuiltIn} (h : rule ∈ optional) :
    rule.listedLine = Text.ofString (rule.description ++ " (optional)") := by
  rw [listedLine, if_neg, Text.ofString_append]
  revert h
  cases rule <;> decide

end BuiltIn

/-- The mark of an optional rule makes its line no description. -/
theorem Rule.description_ne_listedLine {listed : BuiltIn} (h : listed ∈ BuiltIn.optional) :
    ∀ rule ∈ Rule.available, rule.description ≠ listed.listedLine := by
  rintro _ hmem
  obtain ⟨rule, -, rfl⟩ := List.mem_map.1 hmem
  rw [BuiltIn.listedLine_of_mem_optional h, Rule.description, Ne, Text.ofString_inj]
  revert h
  cases listed <;> cases rule <;> simp [BuiltIn.optional, BuiltIn.description]

namespace CommandLine

theorem listingLine_builtIn (rule : BuiltIn) :
    listingLine (.builtIn rule) = rule.listedLine ++ "\n" := by
  have hknown : isKnown Rule.defaults rule.description = true ↔ rule ∈ BuiltIn.defaults := by
    rw [isKnown_iff, BuiltIn.exists_defaults_iff]
  rw [listingLine, BuiltIn.listedLine]
  simp only [Rule.description, hknown]

/-- **What the program lists**: the line of each rule, in the order of the catalog. -/
theorem listing_eq :
    listing = BuiltIn.all.flatMap fun rule => (rule.listedLine ++ "\n" : Text) := by
  rw [listing, Rule.available, List.flatMap_map]
  simp only [listingLine_builtIn]

theorem checkProgram_listRules (h : Host) (s : Cargo.Script) (stamp : Stamp) :
    let ended := checkProgram h s stamp ["--list-rules"]
    ended.exit = .ok 0 ∧ ended.stdout = listing := by
  have hparse : checkGrammar.parse ["--list-rules"] = .ok (.command { listRules := true }) := by
    rfl
  rw [checkProgram, Grammar.conclude, hparse]
  exact ⟨rfl, List.append_nil _⟩

end CommandLine

/-! ## Selecting -/

variable {h : Host} {path : Path} {strict : Bool} {s : Cargo.Script} {lines : List Text}

/-- Requests that all describe rules are of no further account. -/
theorem checkRequests_of_known {catalog : List Rule}
    (hknown : ∀ line ∈ lines, ∃ rule ∈ catalog, rule.description = line) :
    checkRequests catalog strict lines = pure () := by
  induction lines with
  | nil => rfl
  | cons line lines ih =>
    obtain ⟨hline, hlines⟩ := List.forall_mem_cons.1 hknown
    rw [checkRequests, if_pos (isKnown_iff.2 hline), ih hlines]

/-- What a checklist does whose lines all describe rules: it selects these rules, and logs how many
they are. -/
theorem checklistRules_eq_of_known (hread : readChecklist h path = .ok lines)
    (hknown : ∀ line ∈ lines, ∃ rule ∈ Rule.available, rule.description = line) :
    let selected := Rule.available.filter fun rule => lines.contains rule.description
    checklistRules h path strict = (do
      Run.log .debug .check ("Checklist " ++ path.text ++ " selected " ++
        toString selected.length ++ " rule(s)")
      return selected) := by
  intro selected
  have hfilter : filterRules Rule.available lines strict = pure selected := by
    rw [filterRules, checkRequests_of_known hknown]
    rfl
  rw [checklistRules, hread]
  show (filterRules Rule.available lines strict >>= fun rules => _) = _
  rw [hfilter]
  rfl

/-- **A checklist whose lines all describe rules** selects these rules. -/
theorem checklistRules_of_known (hread : readChecklist h path = .ok lines)
    (hknown : ∀ line ∈ lines, ∃ rule ∈ Rule.available, rule.description = line) :
    (checklistRules h path strict s).value =
      .ok (Rule.available.filter fun rule => lines.contains rule.description) := by
  rw [checklistRules_eq_of_known hread hknown]
  rfl

/-- A checklist that is followed strictly fails at the first line that describes no rule. -/
theorem checklistRules_of_unknown {before after : List Text} {line : Text}
    (hread : readChecklist h path = .ok (before ++ line :: after))
    (hbefore : ∀ known ∈ before, ∃ rule ∈ Rule.available, rule.description = known)
    (hunknown : ∀ rule ∈ Rule.available, rule.description ≠ line) :
    (checklistRules h path true s).value = .error (.setup (.ruleNotFound line)) :=
  checklistRules_eq_error_iff.2 (.inr ⟨_, hread, checkRequests_eq_error_iff.2
    ⟨rfl, before, line, after, rfl, hbefore, hunknown, rfl⟩⟩)

/-- The rules that the lines of default rules select. -/
theorem filter_listedLine {picked : List BuiltIn}
    (hpicked : ∀ rule ∈ picked, rule ∈ BuiltIn.defaults) :
    (Rule.available.filter fun rule =>
        (picked.map BuiltIn.listedLine).contains rule.description) =
      (BuiltIn.all.filter (· ∈ picked)).map .builtIn := by
  rw [Rule.available, List.filter_map]
  congr 1
  refine List.filter_congr fun rule _ => ?_
  rw [Bool.eq_iff_iff, Function.comp_apply, List.contains_iff_mem, decide_eq_true_iff]
  constructor
  · intro hmem
    obtain ⟨other, hother, hline⟩ := List.mem_map.1 hmem
    rw [BuiltIn.listedLine_of_mem_defaults (hpicked other hother)] at hline
    exact BuiltIn.description_inj.1 hline ▸ hother
  · intro hmem
    exact List.mem_map.2 ⟨rule, hmem, BuiltIn.listedLine_of_mem_defaults (hpicked rule hmem)⟩

/-- **Listed lines as a checklist.**  The program lists the line of each rule.  In a checklist that
is made of such lines, in any order and any layout and as often as one likes, the lines of default
rules select exactly the rules they were printed for, in the order of the catalog.  If there are
lines of optional rules among them, a checklist that is followed strictly fails at the first one,
since with its mark a line describes no rule. -/
theorem checklistRules_listed {picked : List BuiltIn} {content : String}
    (hfile : h.fileContent path = .ok (Text.Utf8.encodeString content))
    (hcontent : LaidOut (picked.map BuiltIn.listedLine) content) (lister : Host)
    (script : Cargo.Script) (stamp : CommandLine.Stamp) :
    let listed := CommandLine.checkProgram lister script stamp ["--list-rules"]
    let selected := (checklistRules h path true s).value
    listed.exit = .ok 0 ∧
    listed.stdout = (BuiltIn.all.flatMap fun rule => (rule.listedLine ++ "\n" : Text)) ∧
    ((∀ rule ∈ picked, rule ∈ BuiltIn.defaults) →
      selected = .ok ((BuiltIn.all.filter (· ∈ picked)).map .builtIn)) ∧
    ∀ before rule after, picked = before ++ rule :: after →
      (∀ other ∈ before, other ∈ BuiltIn.defaults) → rule ∈ BuiltIn.optional →
        selected = .error (.setup (.ruleNotFound rule.listedLine)) := by
  intro listed selected
  obtain ⟨hexit, hstdout⟩ := CommandLine.checkProgram_listRules lister script stamp
  have hread : readChecklist h path = .ok (picked.map BuiltIn.listedLine) :=
    readChecklist_of_laidOut hfile hcontent fun line hline => by
      obtain ⟨rule, -, rfl⟩ := List.mem_map.1 hline
      exact rule.isEntry_listedLine
  have hdescribes (rule : BuiltIn) (hrule : rule ∈ BuiltIn.defaults) :
      ∃ other ∈ Rule.available, other.description = rule.listedLine :=
    ⟨_, List.mem_map_of_mem rule.mem_all, (BuiltIn.listedLine_of_mem_defaults hrule).symm⟩
  refine ⟨hexit, hstdout.trans CommandLine.listing_eq, fun hpicked => ?_, ?_⟩
  · refine (checklistRules_of_known hread fun line hline => ?_).trans
      (congrArg Except.ok (filter_listedLine hpicked))
    obtain ⟨rule, hrule, rfl⟩ := List.mem_map.1 hline
    exact hdescribes rule (hpicked rule hrule)
  · rintro before rule after rfl hbefore hoptional
    rw [List.map_append, List.map_cons] at hread
    refine checklistRules_of_unknown hread (fun line hline => ?_)
      (Rule.description_ne_listedLine hoptional)
    obtain ⟨known, hknown, rfl⟩ := List.mem_map.1 hline
    exact hdescribes known (hbefore known hknown)

/-- Three lines in another order than that of the listing, one of them twice, with blank lines and
three kinds of line ends. -/
theorem checklistRules_listed_twice :
    let content :=
      "\n  " ++ BuiltIn.license.description ++ "\t\r\n\r" ++ BuiltIn.readme.description ++
      "\n" ++ BuiltIn.license.description
    let h : Host := { tree := ⟨[([Text.Utf8.encodeString "rules"],
      .file (Text.Utf8.encodeString content))]⟩ }
    let path := Path.ofText "rules"
    let picked : List BuiltIn := [.license, .readme, .license]
    h.fileContent path = .ok (Text.Utf8.encodeString content) ∧
      LaidOut (picked.map BuiltIn.listedLine) content ∧
      (∀ rule ∈ picked, rule ∈ BuiltIn.defaults) ∧
      (checklistRules h path true []).value = .ok [.builtIn .license, .builtIn .readme] := by
  intro content h path picked
  have hpicked : ∀ rule ∈ picked, rule ∈ BuiltIn.defaults := by decide
  have hline (rule : BuiltIn) (hrule : rule ∈ picked) :
      Text.ofString rule.description = rule.listedLine :=
    (BuiltIn.listedLine_of_mem_defaults (hpicked rule hrule)).symm
  have hends :
      Text.ofString "\t\r\n\r" = Text.ofString "\t" ++ .char '\r' :: Text.ofString "\n\r" := by
    decide +kernel
  have htext : Text.ofString content =
      Text.ofString "\n  " ++ BuiltIn.license.listedLine ++ Text.ofString "\t" ++ .char '\r' ::
        (Text.ofString "\n\r" ++ BuiltIn.readme.listedLine ++ [] ++ .char '\n' ::
          ([] ++ BuiltIn.license.listedLine ++ [])) := by
    simp only [content, Text.ofString_append, hends, hline .license (by decide),
      hline .readme (by decide), List.append_assoc, List.nil_append, List.append_nil,
      List.cons_append]
    rfl
  have hcontent : LaidOut (picked.map BuiltIn.listedLine) (Text.ofString content) := by
    rw [htext]
    refine .line _ (by decide +kernel) (by decide +kernel) (.inr rfl) ?_
    refine .line _ (by decide +kernel) (by decide) (.inl rfl) ?_
    exact .last _ (by decide) (by decide)
  have hfile : h.fileContent path = .ok (Text.Utf8.encodeString content) := by rfl
  obtain ⟨-, -, hselected, -⟩ :=
    checklistRules_listed (s := []) hfile hcontent {} [] ⟨"first", "today"⟩
  exact ⟨hfile, hcontent, hpicked, (hselected hpicked).trans (by rfl)⟩

/-- The line of an optional rule as a checklist, which is refused. -/
theorem checklistRules_listed_optional :
    let line := "Should be under source control. (optional)"
    let h : Host := { tree := ⟨[([Text.Utf8.encodeString "rules"],
      .file (Text.Utf8.encodeString (line ++ "\n")))]⟩ }
    let listed := (CommandLine.checkProgram h [] ⟨"first", "today"⟩ ["--list-rules"]).stdout
    (∃ before, listed = before ++ Text.ofString (line ++ "\n")) ∧
      (checklistRules h (.ofText "rules") true []).value =
        .error (.setup (.ruleNotFound line)) := by
  intro line h listed
  have hoptional : BuiltIn.sourceControl ∈ BuiltIn.optional := by decide
  have hline : BuiltIn.sourceControl.listedLine = line :=
    BuiltIn.listedLine_of_mem_optional hoptional
  constructor
  · refine ⟨(BuiltIn.all.take 9).flatMap fun rule => (rule.listedLine ++ "\n" : Text), ?_⟩
    rw [Text.ofString_append, ← hline]
    refine (CommandLine.checkProgram_listRules _ _ _).2.trans (CommandLine.listing_eq.trans ?_)
    show (BuiltIn.all.take 9 ++ [BuiltIn.sourceControl]).flatMap _ = _
    rw [List.flatMap_append, List.flatMap_singleton]
  · rw [← hline]
    have hcontent : LaidOut [BuiltIn.sourceControl.listedLine] (Text.ofString (line ++ "\n")) := by
      rw [Text.ofString_append, ← hline]
      exact .last _ (fun _ hc => absurd hc List.not_mem_nil) (by decide +kernel)
    have hread : readChecklist h (.ofText "rules") = .ok [BuiltIn.sourceControl.listedLine] :=
      readChecklist_of_laidOut (by rfl) hcontent
        (List.forall_mem_singleton.2 (BuiltIn.isEntry_listedLine _))
    exact checklistRules_of_unknown hread (fun _ hc => absurd hc List.not_mem_nil)
      (Rule.description_ne_listedLine hoptional)

end ProjectAudit
