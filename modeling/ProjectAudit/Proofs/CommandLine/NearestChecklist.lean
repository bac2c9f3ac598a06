import ProjectAudit.Proofs.CommandLine.EntryPoints
import ProjectAudit.Proofs.Files.Resolved
import ProjectAudit.Proofs.Run.Faulting
import Mathlib.Data.List.Infix

/-!
# The nearest checklist

Without a checklist of its own the command looks for a file of the usual name, first in the working
directory and then in each directory above it.  The first one that there is selects the rules, and
if there is none, the default rules are evaluated.

The search is given the usual name itself to start from.  Where that is a file, it is the nearest
checklist.  Where it is a directory, or a link to one, the search begins inside of that directory
and goes up from there, so the directories above the working directory are passed over if the
directory, or one above it, has a checklist.  Everything else of that name is no matter.

* `Path.ancestors_ofLocation`: the directories above a location.
* `SearchStart`: where the search begins.
* `FirstFile`: the first file among several places.
* `findChecklist_eq_firstSome`: the search asks one place after the other.
* `CommandLine.CheckArguments.run_nearest`: the rules of a run.
* `CommandLine.CheckArguments.run_nearest_inside`: a directory of the usual name.
-/

namespace ProjectAudit

/-! ## The directories above a location -/

namespace Path

/-- The innermost location first, then those above it. -/
theorem ancestorsOf_map (n : FileName) (l : Location) :
    ancestorsOf .root ((n :: l).map decodeName) = l.tails.map ofLocation := by
  induction l generalizing n with
  | nil => rfl
  | cons m l ih =>
    have hstep : ancestorsOf .root ((n :: m :: l).map decodeName) =
        ⟨.root, ((m :: l).map decodeName).reverse⟩ :: ancestorsOf .root ((m :: l).map decodeName) :=
      rfl
    rw [hstep, ih m, ← List.map_reverse, List.tails_cons]
    rfl

/-- **The directories above a location.** -/
theorem ancestors_ofLocation (n : FileName) (l : Location) :
    (ofLocation (n :: l)).ancestors = l.tails.map ofLocation := by
  rw [← ancestorsOf_map n, ancestors, ofLocation, List.map_reverse, List.reverse_reverse]

/-- The directories that are searched from a location on. -/
theorem searched_ofLocation (l : Location) :
    (if (ofLocation l).names.isEmpty then [ofLocation l]
      else ofLocation l :: (ofLocation l).ancestors) = l.tails.map ofLocation := by
  cases l with
  | nil => rfl
  | cons n l =>
    rw [if_neg (by simp [ofLocation]), ancestors_ofLocation]
    rfl

end Path

/-! ## Places for a checklist -/

/-- Where the search for a checklist begins: in the working directory, unless a directory stands
there under the usual name; then in that one, with links replaced. -/
inductive SearchStart (h : Host) : Location → Prop
  | here (hwd : h.tree.Rooted h.workingDirectory)
    (hzero : ∀ n ∈ h.workingDirectory, (0 : UInt8) ∉ n)
    (hplain : h.isDirectory (.ofText checklistName) ≠ .ok true) : SearchStart h h.workingDirectory
  | inside {l : Location} (hdirectory : h.isDirectory (.ofText checklistName) = .ok true)
    (hresolve : h.resolve (.ofText checklistName) = .ok (.ofLocation l)) : SearchStart h l

/-- The place for a checklist in a directory. -/
def checklistPlace (directory : Location) : Path :=
  (Path.ofLocation directory).child checklistName

/-- The places for a checklist: the usual name as it is seen from the working directory, and then
the places in a directory and in those above it. -/
def checklistPlaces (start : Location) : List Path :=
  .ofText checklistName :: start.tails.map checklistPlace

/-- What comes of asking one place after the other for a file: the first place that has one, or
nothing, or a place at which the question has no answer. -/
inductive FirstFile (h : Host) (places : List Path) : Except PathFault (Option Path) → Prop
  | found {before after : List Path} {place : Path} (hsplit : places = before ++ place :: after)
    (hbefore : ∀ p ∈ before, h.isFile p = .ok false) (hplace : h.isFile place = .ok true) :
    FirstFile h places (.ok (some place))
  | absent (hall : ∀ p ∈ places, h.isFile p = .ok false) : FirstFile h places (.ok none)
  | unanswered {before after : List Path} {place : Path} {fault : PathFault}
    (hsplit : places = before ++ place :: after) (hbefore : ∀ p ∈ before, h.isFile p = .ok false)
    (hplace : h.isFile place = .error fault) : FirstFile h places (.error fault)

variable {h h' : Host} {places : List Path} {start : Location}

/-- The place, if a file is there. -/
def fileAt (h : Host) (place : Path) : Except PathFault (Option Path) :=
  (h.isFile place).map fun isFile => if isFile then some place else none

theorem FirstFile.cons {place : Path} {found : Except PathFault (Option Path)}
    (hplace : h.isFile place = .ok false) (hfound : FirstFile h places found) :
    FirstFile h (place :: places) found := by
  cases hfound with
  | found hsplit hbefore hfile =>
    exact .found (congrArg (place :: ·) hsplit) (List.forall_mem_cons.2 ⟨hplace, hbefore⟩) hfile
  | absent hall => exact .absent (List.forall_mem_cons.2 ⟨hplace, hall⟩)
  | unanswered hsplit hbefore hfault =>
    exact .unanswered (congrArg (place :: ·) hsplit) (List.forall_mem_cons.2 ⟨hplace, hbefore⟩)
      hfault

/-- The search stops at the first place that has a file, or has no answer. -/
theorem firstFile_firstSome (h : Host) (places : List Path) :
    FirstFile h places (firstSome (fileAt h) places) := by
  induction places with
  | nil => exact .absent (List.forall_mem_nil _)
  | cons place rest ih =>
    rcases hfile : h.isFile place with fault | (_ | _)
    · rw [firstSome_cons_of_error (e := fault) (by rw [fileAt, hfile]; rfl)]
      exact .unanswered (List.nil_append (place :: rest)).symm (List.forall_mem_nil _) hfile
    · rw [firstSome_cons_of_none (by rw [fileAt, hfile]; rfl)]
      exact ih.cons hfile
    · rw [firstSome_cons_of_some (b := place) (by rw [fileAt, hfile]; rfl)]
      exact .found (List.nil_append (place :: rest)).symm (List.forall_mem_nil _) hfile

theorem firstChecklist_eq_firstSome (h : Host) (directories : List Location) :
    firstChecklist h (directories.map .ofLocation) =
      firstSome (fileAt h) (directories.map checklistPlace) := by
  induction directories with
  | nil => rfl
  | cons directory rest ih =>
    rw [List.map_cons, List.map_cons, firstChecklist, firstSome, ih, fileAt, checklistPlace]
    rcases h.isFile ((Path.ofLocation directory).child checklistName) with fault | (_ | _) <;> rfl

/-! ## The search -/

/-- What the search begins with stands for where it begins. -/
theorem SearchStart.resolve_base (hstart : SearchStart h start) {b : Bool}
    (hdirectory : h.isDirectory (.ofText checklistName) = .ok b) :
    h.resolve (if b then .ofText checklistName else (Path.ofText checklistName).parent) =
      .ok (.ofLocation start) := by
  cases hstart with
  | here hwd hzero hplain =>
    obtain rfl : b = false := Bool.eq_false_iff.2 fun hb => hplain (hb ▸ hdirectory)
    exact Host.resolve_workingDirectory hwd hzero
  | inside hinside hresolve =>
    obtain rfl : b = true := Except.ok.inj (hdirectory.symm.trans hinside)
    exact hresolve

/-- **The search asks one place after the other.** -/
theorem findChecklist_eq_firstSome (hstart : SearchStart h start) :
    findChecklist h (.ofText checklistName) = firstSome (fileAt h) (checklistPlaces start) := by
  rw [findChecklist, checklistPlaces, firstSome, fileAt]
  rcases hfile : h.isFile (.ofText checklistName) with fault | (_ | _)
  · rfl
  · obtain ⟨b, hdirectory⟩ := Host.exists_isDirectory_of_isFile hfile
    have hsearch : (do
        let directory ← h.resolve
          (if b then .ofText checklistName else (Path.ofText checklistName).parent)
        firstChecklist h (if directory.names.isEmpty then [directory]
          else directory :: directory.ancestors)) =
        firstSome (fileAt h) (start.tails.map checklistPlace) := by
      rw [hstart.resolve_base hdirectory, ok_bind, Path.searched_ofLocation,
        firstChecklist_eq_firstSome]
    rw [hdirectory]
    exact hsearch
  · rfl

/-! ## The rules of a run -/

/-- The rules are those that the lines of a file describe, in the order of the catalog.  Where the
checklist is to be followed strictly, each line describes one. -/
def Selects (h : Host) (path : Path) (strict : Bool) (rules : List Rule) : Prop :=
  ∃ lines, readChecklist h path = .ok lines ∧
    (strict = true → ∀ line ∈ lines, ∃ rule ∈ Rule.available, rule.description = line) ∧
    rules = Rule.available.filter fun rule => lines.contains rule.description

open Run

variable {s : Cargo.Script}

/-- Requests are followed unless one is unknown and they are to be followed strictly. -/
theorem checkRequests_eq_ok_iff {catalog : List Rule} {strict : Bool} {requested : List Text} :
    (checkRequests catalog strict requested s).value = .ok () ↔
      (strict = true → ∀ line ∈ requested, ∃ rule ∈ catalog, rule.description = line) := by
  induction requested generalizing s with
  | nil => exact iff_of_true rfl fun _ _ hmem => absurd hmem List.not_mem_nil
  | cons line rest ih =>
    rw [checkRequests, List.forall_mem_cons]
    by_cases hknown : isKnown catalog line = true
    · rw [if_pos hknown, ih, and_iff_right (isKnown_iff.1 hknown)]
    · rw [if_neg hknown]
      cases strict with
      | true =>
        refine iff_of_false (fun hvalue => ?_) fun h => hknown (isKnown_iff.2 (h rfl).1)
        cases hvalue
      | false =>
        refine iff_of_true (value_bind_eq_ok.2 ⟨(), rfl, ?_⟩) fun h => absurd h Bool.false_ne_true
        exact ih.2 fun h => absurd h Bool.false_ne_true

/-- **What a checklist file selects.** -/
theorem checklistRules_eq_ok_iff {path : Path} {strict : Bool} {rules : List Rule} :
    (checklistRules h path strict s).value = .ok rules ↔ Selects h path strict rules := by
  rw [checklistRules, value_bind_eq_ok, ofExcept_apply]
  refine exists_congr fun lines => and_congr_right fun _ => ?_
  constructor
  · intro hvalue
    obtain ⟨selected, hfilter, hlog⟩ := value_bind_eq_ok.1 hvalue
    obtain rfl : selected = rules := Except.ok.inj hlog
    obtain ⟨⟨⟩, hrequests, -⟩ := value_bind_eq_ok.1 hfilter
    exact ⟨checkRequests_eq_ok_iff.1 hrequests, eq_filter_of_filterRules hfilter⟩
  · rintro ⟨hknown, rfl⟩
    have hfilter : (filterRules Rule.available lines strict s).value =
        .ok (Rule.available.filter fun rule => lines.contains rule.description) :=
      value_bind_eq_ok.2 ⟨(), checkRequests_eq_ok_iff.2 hknown, rfl⟩
    exact value_bind_eq_ok.2 ⟨_, hfilter, rfl⟩

namespace CommandLine.CheckArguments

/-- What a run does with what came of the search for a checklist: it checks the project with the
rules that the file selects, or with the default rules where there is no file, or it ends with the
fault of the question that has no answer. -/
def RunsWith (a : CheckArguments) (h : Host) (stamp : Stamp) (settings : RuleSettings) :
    Except PathFault (Option Path) → Prop
  | .ok (some path) =>
    a.run h stamp = checkFromChecklist h a.manifest path a.strict { verbose := a.verbose, settings }
        >>= a.close h stamp ∧
      ∀ s rules, (checklistRules h path a.strict s).value = .ok rules ↔
        Selects h path a.strict rules
  | .ok none =>
    a.run h stamp = checkDefault h a.manifest { verbose := a.verbose, settings } >>=
      a.close h stamp
  | .error fault => ∀ s, (a.run h stamp s).value = .error (.path fault)

variable {a : CheckArguments}

theorem chosenChecklist_of_absent (hnone : a.checklist = none) :
    a.chosenChecklist h = (findChecklist h (.ofText checklistName)).mapError .path := by
  rw [chosenChecklist, hnone]

/-- **The nearest checklist.**  Without a checklist of its own, a run takes the first file among the
places for one, which are those in the directory where the search begins and in the directories
above it: in the working directory and above, unless a directory of the usual name is there.  The
lines of that file select the rules; without a file the default rules are evaluated.  What else
there is does not matter: on another host where the same places have files, the same is chosen. -/
theorem run_nearest (hnone : a.checklist = none) (hstart : SearchStart h start) :
    FirstFile h (checklistPlaces start) (findChecklist h (.ofText checklistName)) ∧
      (∀ stamp settings, a.listRules = false → a.settings h = .ok settings →
        a.RunsWith h stamp settings (findChecklist h (.ofText checklistName))) ∧
      ∀ h', SearchStart h' start →
        (∀ place ∈ checklistPlaces start, h'.isFile place = h.isFile place) →
        a.chosenChecklist h' = a.chosenChecklist h := by
  refine ⟨?_, fun stamp settings hlist hsettings => ?_, fun h' hstart' hsame => ?_⟩
  · rw [findChecklist_eq_firstSome hstart]
    exact firstFile_firstSome h _
  · have hchosen := chosenChecklist_of_absent (h := h) hnone
    rcases hfound : findChecklist h (.ofText checklistName) with fault | (_ | path)
    · intro s
      rw [hfound] at hchosen
      have hrules : a.chosenRules h = Run.fail (.path fault) := by
        rw [chosenRules, hchosen]
        rfl
      rw [run_eq_check_bind hlist, hsettings, hrules]
      rfl
    · exact run_eq_checkDefault_bind hlist hsettings (chosenChecklist_of_none hnone hfound) stamp
    · rw [hfound] at hchosen
      exact ⟨run_eq_checkFromChecklist_bind hlist hsettings hchosen stamp,
        fun s rules => checklistRules_eq_ok_iff⟩
  · have hat : ∀ place ∈ checklistPlaces start, fileAt h' place = fileAt h place :=
      fun place hplace => by rw [fileAt, fileAt, hsame place hplace]
    rw [chosenChecklist_of_absent hnone, chosenChecklist_of_absent hnone,
      findChecklist_eq_firstSome hstart, findChecklist_eq_firstSome hstart', firstSome_congr hat]

/-- What stands under the usual name in the working directory is a link that leads nowhere, so the
checklist in the directory above is taken. -/
theorem run_nearest_above :
    let name := Text.Utf8.encodeString ".culture"
    let h : Host := {
      workingDirectory := [[119]]
      tree := ⟨[([[119]], .directory), ([name, [119]], .link [103]),
        ([name], .file (Text.Utf8.encodeString "Should be under source control.\n"))]⟩ }
    let a : CheckArguments := {}
    a.checklist = none ∧ SearchStart h [[119]] ∧
      findChecklist h (.ofText checklistName) = .ok (some (.ofText "/.culture")) ∧
      (checklistRules h (.ofText "/.culture") false []).value = .ok [.builtIn .sourceControl] := by
  intro name h a
  have hstart : SearchStart h [[119]] :=
    .here (.inside .root ⟨rfl, by decide, by decide⟩ (by decide +kernel) rfl)
      (by decide +kernel) (by decide +kernel)
  have hfind : findChecklist h (.ofText checklistName) = .ok (some (.ofText "/.culture")) := by
    decide +kernel
  have hread : readChecklist h (.ofText "/.culture") = .ok ["Should be under source control."] :=
    readChecklist_eq_ok_iff.2
      ⟨"Should be under source control.\n", by decide +kernel, by decide +kernel⟩
  have hselected : (Rule.available.filter fun rule =>
      ([("Should be under source control." : Text)]).contains rule.description) =
        [.builtIn .sourceControl] := by
    have hdescribed (rule : BuiltIn) :
        ([("Should be under source control." : Text)]).contains (Rule.builtIn rule).description =
          decide (rule = .sourceControl) := by
      rw [Bool.eq_iff_iff, List.contains_iff_mem, List.mem_singleton, decide_eq_true_iff]
      exact BuiltIn.description_inj (b := .sourceControl)
    rw [Rule.available, List.filter_map]
    simp only [Function.comp_def, hdescribed]
    rfl
  obtain ⟨-, hruns, -⟩ := run_nearest (a := a) rfl hstart
  rw [hfind] at hruns
  obtain ⟨-, hrules⟩ := hruns ⟨[], []⟩ {} rfl rfl
  have hloose : ¬ a.strict = true := Bool.false_ne_true
  exact ⟨rfl, hstart, hfind,
    (hrules [] _).2 ⟨_, hread, fun hstrict => absurd hstrict hloose, hselected.symm⟩⟩

/-- **A directory of the usual name.**  Inside of it stands another checklist, and that one is
followed, though the working directory has none and the directory above it has one. -/
theorem run_nearest_inside :
    let name := Text.Utf8.encodeString ".culture"
    let h : Host := {
      workingDirectory := [[119]]
      tree := ⟨[([[119]], .directory), ([name, [119]], .directory),
        ([name, name, [119]], .file (Text.Utf8.encodeString "inner\n")),
        ([name], .file (Text.Utf8.encodeString "outer\n"))]⟩ }
    h.isFile (.ofText checklistName) = .ok false ∧
      h.isFile (checklistPlace [[119]]) = .ok false ∧ h.isFile (checklistPlace []) = .ok true ∧
      findChecklist h (.ofText checklistName) = .ok (some (checklistPlace [name, [119]])) ∧
      (({ strict := true } : CheckArguments).run h ⟨[], []⟩ []).value =
        .error (.setup (.ruleNotFound "inner")) := by
  intro name h
  have hfind : findChecklist h (.ofText checklistName) =
      .ok (some (checklistPlace [name, [119]])) := by decide +kernel
  have hread : readChecklist h (checklistPlace [name, [119]]) = .ok ["inner"] :=
    readChecklist_eq_ok_iff.2 ⟨"inner\n", by decide +kernel, by decide +kernel⟩
  have hunknown : ∀ rule ∈ Rule.available, rule.description ≠ "inner" := by
    intro _ hmem
    obtain ⟨rule, -, rfl⟩ := List.mem_map.1 hmem
    rw [Rule.description, Ne, Text.ofString_inj]
    cases rule <;> simp [BuiltIn.description]
  have hrules : (checklistRules h (checklistPlace [name, [119]]) true []).value =
      .error (.setup (.ruleNotFound "inner")) :=
    checklistRules_of_unknown hread (fun _ hmem => absurd hmem List.not_mem_nil) hunknown
  refine ⟨by decide +kernel, by decide +kernel, by decide +kernel, hfind, ?_⟩
  have hchosen : ({ strict := true } : CheckArguments).chosenChecklist h =
      .ok (some (checklistPlace [name, [119]])) := by
    rw [chosenChecklist_of_absent rfl, hfind]
    rfl
  rw [run_eq_checkFromChecklist_bind rfl rfl hchosen]
  exact value_bind_eq_error.2 (.inl (value_bind_eq_error.2 (.inl hrules)))

end CommandLine.CheckArguments

end ProjectAudit
