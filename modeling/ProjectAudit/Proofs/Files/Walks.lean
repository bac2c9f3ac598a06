import ProjectAudit.Proofs.Files.Names
import ProjectAudit.Proofs.Files.Writing

/-!
# Where names lead

A walk that comes to an end at something is taken apart name by name.  A link on the way is a walk
of its own, over the names of its target, and what follows begins where that one ended.  So a walk
over names and then others is two walks, and the second one does not depend on how its directory
was found, apart from the links that may still be replaced.

* `FileTree.Leads`: names lead from a directory to a location.
* `FileTree.exists_leads_of_walk`: a walk that ends at something.
* `FileTree.Leads.walk_eq`, `FileTree.Leads.walk_append`: what is left of a walk behind names that
  lead somewhere.
* `FileTree.locate_eq`: asking for a path is walking its names.
-/

namespace ProjectAudit

/-- The name can be an entry of a directory. -/
structure FileName.IsEntry (n : FileName) : Prop where
  proper : FileName.isProper n = true
  ne_above : n ≠ FileName.above
  length_le : n.length ≤ FileTree.maxNameBytes

/-- The node is no link. -/
def Node.IsPlain (node : Node) : Prop :=
  ∀ target, node ≠ .link target

theorem Node.IsPlain.file (content : List UInt8) : (Node.file content).IsPlain :=
  nofun

theorem Node.IsPlain.directory : Node.IsPlain .directory :=
  nofun

namespace FileTree

variable {t : FileTree} {here mid m : Location} {name target : FileName}
  {names rest more : List FileName} {node : Node} {j k : Nat}

/-- Names lead from a location to another one if each is looked up in a directory and stands for
something there.  The number is that of the links that are replaced on the way; a link is replaced
by walking the names of its target first. -/
inductive Leads (t : FileTree) : Nat → Location → List FileName → Location → Prop
  | done {here : Location} : Leads t 0 here [] here
  | skip {k : Nat} {here m : Location} {name : FileName} {rest : List FileName}
    (hhere : t.isDirectory here = true) (hname : FileName.isProper name = false)
    (hrest : Leads t k here rest m) : Leads t k here (name :: rest) m
  | above {k : Nat} {here m : Location} {rest : List FileName}
    (hhere : t.isDirectory here = true) (hrest : Leads t k here.tail rest m) :
    Leads t k here (FileName.above :: rest) m
  | enter {k : Nat} {here m : Location} {name : FileName} {rest : List FileName} {node : Node}
    (hhere : t.isDirectory here = true) (hname : FileName.IsEntry name)
    (hnode : t.node? (name :: here) = some node) (hplain : node.IsPlain)
    (hrest : Leads t k (name :: here) rest m) : Leads t k here (name :: rest) m
  | link {j k : Nat} {here mid m : Location} {name target : FileName} {rest : List FileName}
    (hhere : t.isDirectory here = true) (hname : FileName.IsEntry name)
    (hnode : t.node? (name :: here) = some (.link target))
    (htarget : Leads t j (startOf here target) (segments FileName.isSlash target) mid)
    (hrest : Leads t k mid rest m) : Leads t (j + 1 + k) here (name :: rest) m

/-! ## Single steps of a walk -/

theorem isProper_above : FileName.isProper FileName.above = true := rfl

theorem advance_skip (hhere : t.isDirectory here = true) (hname : FileName.isProper name = false)
    (followLast : Bool) :
    t.advance followLast here (name :: rest) = t.advance followLast here rest := by
  rw [advance, hhere, hname]
  rfl

theorem advance_above (hhere : t.isDirectory here = true) (followLast : Bool) :
    t.advance followLast here (FileName.above :: rest) = t.advance followLast here.tail rest := by
  rw [advance, hhere, isProper_above]
  rfl

theorem advance_entry (hhere : t.isDirectory here = true) (hname : FileName.IsEntry name)
    (followLast : Bool) :
    t.advance followLast here (name :: rest) =
      match t.node? (name :: here) with
      | none => .stop (if rest.isEmpty then .ok (.vacant here name) else .error .noEntry)
      | some (.link target) =>
        if rest.isEmpty && !followLast then .stop (.ok (.taken (name :: here)))
        else .follow here target rest
      | some _ => advance t followLast (name :: here) rest := by
  have hdirectory : ¬ (!t.isDirectory here) = true := by
    rw [hhere]
    decide
  have hproper : ¬ (!FileName.isProper name) = true := by
    rw [hname.proper]
    decide
  rw [advance]
  exact (if_neg hdirectory).trans ((if_neg hproper).trans
    ((if_neg hname.ne_above).trans (if_neg (Nat.not_lt.2 hname.length_le))))

theorem advance_enter (hhere : t.isDirectory here = true) (hname : FileName.IsEntry name)
    (hnode : t.node? (name :: here) = some node) (hplain : node.IsPlain) (followLast : Bool) :
    t.advance followLast here (name :: rest) = t.advance followLast (name :: here) rest := by
  rw [advance_entry hhere hname, hnode]
  cases node with
  | file content => rfl
  | directory => rfl
  | link target => exact absurd rfl (hplain target)

/-- Where a walk ends depends on how it advances. -/
theorem walk_congr {followLast : Bool} {here' : Location} {names' : List FileName}
    (h : t.advance followLast here names = t.advance followLast here' names') (budget : Nat) :
    t.walk followLast budget here names = t.walk followLast budget here' names' := by
  rw [walk, h, walk]

theorem walk_link (hhere : t.isDirectory here = true) (hname : FileName.IsEntry name)
    (hnode : t.node? (name :: here) = some (.link target)) (budget : Nat) :
    t.walk true (budget + 1) here (name :: rest) =
      t.walk true budget (startOf here target) (segments FileName.isSlash target ++ rest) := by
  rw [walk, advance_entry hhere hname, hnode]
  simp

theorem walk_link_zero (hhere : t.isDirectory here = true) (hname : FileName.IsEntry name)
    (hnode : t.node? (name :: here) = some (.link target)) :
    t.walk true 0 here (name :: rest) = .error .linkLoop := by
  rw [walk, advance_entry hhere hname, hnode]
  simp

/-- Names that move nowhere are passed over. -/
theorem walk_lead (hhere : t.isDirectory here = true) {lead : List FileName}
    (hlead : ∀ n ∈ lead, FileName.isProper n = false) (followLast : Bool) (budget : Nat) :
    t.walk followLast budget here (lead ++ names) = t.walk followLast budget here names := by
  induction lead with
  | nil => rfl
  | cons n lead ih =>
    obtain ⟨hn, hlead⟩ := List.forall_mem_cons.1 hlead
    rw [List.cons_append, walk_congr (advance_skip hhere hn followLast), ih hlead]

/-! ## Walks and where names lead -/

/-- Names and then others lead to where the others lead from the end of the first. -/
theorem Leads.exists_of_append (h : t.Leads k here (names ++ more) m) :
    ∃ i j mid, t.Leads i here names mid ∧ t.Leads j mid more m := by
  induction names generalizing k here with
  | nil => exact ⟨0, k, here, .done, h⟩
  | cons name names ih =>
    cases h with
    | skip hhere hname hrest =>
      obtain ⟨i, j, mid, hfirst, hsecond⟩ := ih hrest
      exact ⟨i, j, mid, .skip hhere hname hfirst, hsecond⟩
    | above hhere hrest =>
      obtain ⟨i, j, mid, hfirst, hsecond⟩ := ih hrest
      exact ⟨i, j, mid, .above hhere hfirst, hsecond⟩
    | enter hhere hname hnode hplain hrest =>
      obtain ⟨i, j, mid, hfirst, hsecond⟩ := ih hrest
      exact ⟨i, j, mid, .enter hhere hname hnode hplain hfirst, hsecond⟩
    | link hhere hname hnode htarget hrest =>
      obtain ⟨i, j, mid, hfirst, hsecond⟩ := ih hrest
      exact ⟨_, j, mid, .link hhere hname hnode htarget hfirst, hsecond⟩

/-- A stretch of a walk has something at its end, or a link whose target and the names behind it
lead there. -/
def Stretch.EndsAt (t : FileTree) (m : Location) : Stretch → Prop
  | .stop result => result = .ok (.taken m)
  | .follow directory target rest => ∃ k,
      t.Leads k (startOf directory target) (segments FileName.isSlash target ++ rest) m

theorem exists_leads_of_endsAt :
    ∀ (names : List FileName) (here : Location),
      (t.advance true here names).EndsAt t m → ∃ k, t.Leads k here names m
  | [], here => by
    rintro ⟨⟩
    exact ⟨0, .done⟩
  | name :: rest, here => by
    intro hends
    cases hhere : t.isDirectory here with
    | false =>
      rw [advance, hhere] at hends
      cases hends
    | true =>
    by_cases hskip : FileName.isProper name = false
    · rw [advance_skip hhere hskip] at hends
      obtain ⟨k, hrest⟩ := exists_leads_of_endsAt rest here hends
      exact ⟨k, .skip hhere hskip hrest⟩
    have hproper : FileName.isProper name = true := by simpa using hskip
    by_cases habove : name = FileName.above
    · subst habove
      rw [advance_above hhere] at hends
      obtain ⟨k, hrest⟩ := exists_leads_of_endsAt rest here.tail hends
      exact ⟨k, .above hhere hrest⟩
    by_cases hlong : name.length ≤ maxNameBytes
    · have hname : FileName.IsEntry name := ⟨hproper, habove, hlong⟩
      rw [advance_entry hhere hname] at hends
      cases hnode : t.node? (name :: here) with
      | none =>
        rw [hnode] at hends
        cases rest <;> cases hends
      | some node =>
        rw [hnode] at hends
        cases node with
        | link target =>
          -- the target and the names behind it are walked as one, and are taken apart again
          rw [Bool.not_true, Bool.and_false] at hends
          obtain ⟨k, hall⟩ := hends
          obtain ⟨i, j, mid, htarget, hrest⟩ := hall.exists_of_append
          exact ⟨_, .link hhere hname hnode htarget hrest⟩
        | file content =>
          obtain ⟨k, hrest⟩ := exists_leads_of_endsAt rest (name :: here) hends
          exact ⟨k, .enter hhere hname hnode (.file content) hrest⟩
        | directory =>
          obtain ⟨k, hrest⟩ := exists_leads_of_endsAt rest (name :: here) hends
          exact ⟨k, .enter hhere hname hnode .directory hrest⟩
    · rw [advance, hhere, hproper, if_neg (by decide), if_neg (by decide), if_neg habove,
        if_pos (Nat.lt_of_not_le hlong)] at hends
      cases hends

/-- **A walk that ends at something** shows where the names lead. -/
theorem exists_leads_of_walk :
    ∀ (budget : Nat) (here : Location) (names : List FileName),
      t.walk true budget here names = .ok (.taken m) → ∃ k, t.Leads k here names m := by
  refine walk_induction ?_ ?_
  · intro _ here names hstop
    have hends : (t.advance true here names).EndsAt t m := by
      rw [hstop]
      rfl
    exact exists_leads_of_endsAt names here hends
  · intro _ here names directory target rest hfollow htarget
    have hends : (t.advance true here names).EndsAt t m := by
      rw [hfollow]
      exact htarget
    exact exists_leads_of_endsAt names here hends

/-- A walk goes on behind names that lead somewhere, and may still replace as many links as they
leave of its budget. -/
theorem Leads.walk_eq (h : t.Leads k here names m) (left : Nat) :
    t.walk true (k + left) here (names ++ more) = t.walk true left m more := by
  induction h generalizing left more with
  | done => rw [Nat.zero_add, List.nil_append]
  | skip hhere hname _ ih =>
    rw [List.cons_append, walk_congr (advance_skip hhere hname true), ih]
  | above hhere _ ih =>
    rw [List.cons_append, walk_congr (advance_above hhere true), ih]
  | enter hhere hname hnode hplain _ ih =>
    rw [List.cons_append, walk_congr (advance_enter hhere hname hnode hplain true), ih]
  | @link j k _ _ _ _ _ _ hhere hname hnode _ _ ihtarget ihrest =>
    -- the target takes its share of the budget, and the names behind it the next one
    have hbudget : j + 1 + k + left = j + (k + left) + 1 := by omega
    rw [List.cons_append, hbudget, walk_link hhere hname hnode, ihtarget, ihrest]

/-- A walk that comes to an end has replaced the links on its way. -/
theorem Leads.le_budget (h : t.Leads k here names m) {budget : Nat} {spot : Spot}
    (hwalk : t.walk true budget here (names ++ more) = .ok spot) : k ≤ budget := by
  induction h generalizing budget more with
  | done => exact Nat.zero_le _
  | skip hhere hname _ ih =>
    rw [List.cons_append, walk_congr (advance_skip hhere hname true)] at hwalk
    exact ih hwalk
  | above hhere _ ih =>
    rw [List.cons_append, walk_congr (advance_above hhere true)] at hwalk
    exact ih hwalk
  | enter hhere hname hnode hplain _ ih =>
    rw [List.cons_append, walk_congr (advance_enter hhere hname hnode hplain true)] at hwalk
    exact ih hwalk
  | link hhere hname hnode htarget _ ihtarget ihrest =>
    rw [List.cons_append] at hwalk
    cases budget with
    | zero =>
      rw [walk_link_zero hhere hname hnode] at hwalk
      cases hwalk
    | succ budget =>
      rw [walk_link hhere hname hnode] at hwalk
      obtain ⟨left, rfl⟩ := Nat.exists_eq_add_of_le (ihtarget hwalk)
      rw [htarget.walk_eq] at hwalk
      have hrest := ihrest hwalk
      omega

/-- **Behind names that lead somewhere** a walk goes on from there, perhaps with fewer links that it
may replace. -/
theorem Leads.walk_append (h : t.Leads k here names m) {budget : Nat} {spot : Spot}
    (hwalk : t.walk true budget here (names ++ more) = .ok spot) :
    ∃ left ≤ budget, t.walk true left m more = .ok spot := by
  obtain ⟨left, rfl⟩ := Nat.exists_eq_add_of_le (h.le_budget hwalk)
  rw [h.walk_eq] at hwalk
  exact ⟨left, Nat.le_add_left _ _, hwalk⟩

/-- A walk may be given more links to replace. -/
theorem walk_mono {followLast : Bool} {spot : Spot} :
    ∀ (budget : Nat) (here : Location) (names : List FileName),
      t.walk followLast budget here names = .ok spot →
      ∀ budget' ≥ budget, t.walk followLast budget' here names = .ok spot := by
  refine walk_induction ?_ ?_
  · intro budget here names hstop budget' _
    rw [walk, hstop]
  · intro budget here names directory target rest hfollow ih budget' hbudget
    obtain ⟨budget', rfl⟩ : ∃ n, budget' = n + 1 := ⟨budget' - 1, by omega⟩
    rw [walk, hfollow]
    exact ih budget' (by omega)

/-- Names lead to one location, and the links on the way are the same. -/
theorem Leads.unique {k' : Nat} {m' : Location} (h : t.Leads k here names m)
    (h' : t.Leads k' here names m') : k = k' ∧ m = m' := by
  induction h generalizing k' m' with
  | done =>
    cases h'
    exact ⟨rfl, rfl⟩
  | skip hhere hname _ ih =>
    cases h' with
    | skip _ _ hrest' => exact ih hrest'
    | above => cases hname
    | enter _ hname' => cases hname.symm.trans hname'.proper
    | link _ hname' => cases hname.symm.trans hname'.proper
  | above hhere _ ih =>
    cases h' with
    | skip _ hname' => cases hname'
    | above _ hrest' => exact ih hrest'
    | enter _ hname' => exact absurd rfl hname'.ne_above
    | link _ hname' => exact absurd rfl hname'.ne_above
  | enter hhere hname hnode hplain _ ih =>
    cases h' with
    | skip _ hname' => cases hname'.symm.trans hname.proper
    | above => exact absurd rfl hname.ne_above
    | enter _ _ _ _ hrest' => exact ih hrest'
    | link _ _ hnode' => exact absurd (Option.some.inj (hnode.symm.trans hnode')) (hplain _)
  | link hhere hname hnode _ _ ihtarget ihrest =>
    cases h' with
    | skip _ hname' => cases hname'.symm.trans hname.proper
    | above => exact absurd rfl hname.ne_above
    | enter _ _ hnode' hplain' =>
      exact absurd (Option.some.inj (hnode'.symm.trans hnode)) (hplain' _)
    | link _ _ hnode' htarget' hrest' =>
      obtain rfl := Node.link.inj (Option.some.inj (hnode.symm.trans hnode'))
      obtain ⟨rfl, rfl⟩ := ihtarget htarget'
      obtain ⟨rfl, rfl⟩ := ihrest hrest'
      exact ⟨rfl, rfl⟩

/-! ## Asking for a path -/

/-- Where the names of a path are walked from. -/
def startIn (workingDirectory : Location) (p : Path) : Location :=
  if p.anchor = .relative then workingDirectory else []

theorem isDirectory_startIn {workingDirectory : Location}
    (hwd : t.isDirectory workingDirectory = true) (p : Path) :
    t.isDirectory (startIn workingDirectory p) = true := by
  rw [startIn]
  split
  · exact hwd
  · rw [isDirectory, node?_root]
    rfl

/-- **Asking for a path is walking its names**, if it can be given and is short. -/
theorem locate_eq {workingDirectory : Location} (hwd : t.isDirectory workingDirectory = true)
    {p : Path} (hp : p.Proper) (hgiven : p.CanBeGiven) (hshort : p.Short) (followLast : Bool) :
    t.locate workingDirectory followLast p =
      (t.walk followLast linkBudget (startIn workingDirectory p) p.fileNames).mapError
        (.refused · p) := by
  obtain ⟨bytes, hbytes, hzero⟩ := hgiven
  obtain ⟨lead, hlead, hsegments⟩ := Path.exists_segments_text hp hbytes
  have hstart : startOf workingDirectory bytes = startIn workingDirectory p := by
    have hanchor := (head?_any_isSlash hbytes).trans (Path.head?_text hp)
    rw [startOf, startIn]
    by_cases hrelative : p.anchor = .relative
    · rw [if_pos hrelative, if_neg fun hslash => hanchor.1 hslash hrelative]
    · rw [if_neg hrelative, if_pos (hanchor.2 hrelative)]
  have hwalk : t.walkNames workingDirectory followLast bytes =
      t.walk followLast linkBudget (startIn workingDirectory p) p.fileNames := by
    rw [walkNames, if_neg (Nat.not_le.2 (hshort bytes hbytes)), hstart, hsegments,
      walk_lead (isDirectory_startIn hwd p) hlead]
  rw [locate, hbytes, ← hwalk]
  exact if_neg (by simpa using hzero)

/-- A path that cannot be given is not refused: the file system is not asked. -/
theorem locate_of_not_canBeGiven {workingDirectory : Location} {p : Path} (h : ¬ p.CanBeGiven)
    (followLast : Bool) :
    ∃ fault, t.locate workingDirectory followLast p = .error fault ∧ fault.isRefusal = false := by
  rw [locate]
  cases hbytes : encodeName p.text with
  | error e => exact ⟨_, rfl, rfl⟩
  | ok bytes =>
    have hzero : bytes.contains 0 = true := by
      rw [List.contains_iff_mem]
      exact Classical.byContradiction fun hzero => h ⟨bytes, hbytes, hzero⟩
    exact ⟨_, if_pos hzero, rfl⟩

end FileTree

end ProjectAudit
