import ProjectAudit.Proofs.Files.Standing

/-!
# Resolving and walking

A walk and the resolution of a path go over the same names, but they do not treat them alike.  The
walk looks each name up in a directory and is given so many links; the resolution asks about each
path by its text, keeps names that lead nowhere, and remembers where links led.  What the two have
in common is this: where a walk ends at something, the resolution gives a path without links for
it, as long as no path that it asks about is too long.

The proof follows the walk.  Each link that is met stands for a number, that of the links which are
replaced while its target is walked.  A link that is still being followed has a greater number than
anything left to walk inside of its target, so it is not met there, and no loop is found.  A link
that was followed before led to a path without links for the location where the walk goes on.

* `FileTree.Asks`: the paths that are asked about.
* `FileTree.resolveFrom_of_leads`: names that lead somewhere are resolved to a path for it.
* `Host.stands_of_resolve`: the path that is resolved leads to where the path led.
* `Host.spot_join`: so does everything that is seen from it.
-/

namespace ProjectAudit

namespace FileTree

variable {t : FileTree} {wd l m mid : Location} {p : Path} {here : Path} {name : Text}
  {n : FileName} {node : Node} {j k : Nat}

/-- The paths that are asked about when names are followed from a path on.  The names of a link's
target are followed in front of those that are left. -/
inductive Asks (t : FileTree) (wd : Location) : Path → List Text → Path → Prop
  | skip {here q : Path} {name : Text} {rest : List Text}
    (hname : Path.isProperName name = false) (hrest : Asks t wd here rest q) :
    Asks t wd here (name :: rest) q
  | above {here q : Path} {rest : List Text} (hrest : Asks t wd here.above rest q) :
    Asks t wd here (".." :: rest) q
  | entry {here : Path} {name : Text} {rest : List Text}
    (hproper : Path.isProperName name = true) (hname : name ≠ "..") :
    Asks t wd here (name :: rest) (here.under name)
  | enter {here q : Path} {name : Text} {rest : List Text}
    (hproper : Path.isProperName name = true) (hname : name ≠ "..")
    (hlink : t.linkAt? wd (here.under name) = .ok none)
    (hrest : Asks t wd (here.under name) rest q) :
    Asks t wd here (name :: rest) q
  | link {here q : Path} {name target : Text} {rest : List Text}
    (hproper : Path.isProperName name = true) (hname : name ≠ "..")
    (hlink : t.linkAt? wd (here.under name) = .ok (some target))
    (hrest : Asks t wd (targetStart here target) (Path.components target ++ rest) q) :
    Asks t wd here (name :: rest) q

/-- With more names behind them no less is asked. -/
theorem Asks.append {names : List Text} {q : Path} (h : t.Asks wd here names q)
    (more : List Text) : t.Asks wd here (names ++ more) q := by
  induction h with
  | skip hname _ ih => exact .skip hname ih
  | above _ ih => exact .above ih
  | entry hproper hname => exact .entry hproper hname
  | enter hproper hname hlink _ ih => exact .enter hproper hname hlink ih
  | link hproper hname hlink _ ih =>
    rw [List.append_assoc] at ih
    exact .link hproper hname hlink ih

theorem not_asks_nil {q : Path} : ¬ t.Asks wd here [] q :=
  nofun

/-- What is asked about behind a name that enters something. -/
theorem Asks.of_cons {rest : List Text} {q : Path} (h : t.Asks wd here (name :: rest) q)
    (hproper : Path.isProperName name = true) (hname : name ≠ "..") :
    q = here.under name ∨
      t.linkAt? wd (here.under name) = .ok none ∧ t.Asks wd (here.under name) rest q ∨
      ∃ target, t.linkAt? wd (here.under name) = .ok (some target) ∧
        t.Asks wd (targetStart here target) (Path.components target ++ rest) q := by
  cases h with
  | skip hskip => cases hskip.symm.trans hproper
  | above => exact absurd rfl hname
  | entry => exact .inl rfl
  | enter _ _ hlink hrest => exact .inr (.inl ⟨hlink, hrest⟩)
  | link _ _ hlink hrest => exact .inr (.inr ⟨_, hlink, hrest⟩)

/-! ## What is found at a path -/

theorem proper_under (hp : p.Proper) (hname : IsName name) : (p.under name).Proper := by
  intro other hother
  rcases List.mem_append.1 hother with hother | hother
  · exact hp other hother
  · exact List.mem_singleton.1 hother ▸ hname

theorem canBeGiven_of_linkAt? {found : Option Text} (h : t.linkAt? wd p = .ok found) :
    p.CanBeGiven := by
  refine Classical.byContradiction fun hnot => ?_
  obtain ⟨fault, hfault, hrefusal⟩ := locate_of_not_canBeGiven hnot false
  rw [linkAt?, hfault] at h
  cases fault with
  | refused => cases hrefusal
  | _ => cases h

/-- The text of a link's target. -/
def linkTarget? : Node → Option Text
  | .link target => some (decodeName target)
  | _ => none

theorem linkTarget?_of_isPlain (hplain : node.IsPlain) : linkTarget? node = none := by
  cases node with
  | link target => exact absurd rfl (hplain target)
  | _ => rfl

/-- An entry of a directory is found to be the link that it is, if its path is short. -/
theorem linkAt?_under (hwd : t.isDirectory wd = true) (h : t.Stands wd p l)
    (hhere : t.isDirectory l = true) (hslash : .char '/' ∉ name) (hencode : encodeName name = .ok n)
    (hname : n.IsEntry) (hnode : t.node? (n :: l) = some node) (hshort : (p.under name).Short)
    (hgiven : (p.under name).CanBeGiven) :
    t.linkAt? wd (p.under name) = .ok (linkTarget? node) := by
  have hproper := proper_under h.proper (isName_of_isEntry hname hencode hslash).1
  have hend : t.walk false linkBudget l [n] = .ok (.taken (n :: l)) := by
    rw [walk, advance_entry hhere hname, hnode]
    cases node <;> rfl
  have hlocate := locate_eq hwd hproper hgiven hshort false
  rw [Path.fileNames_under p hencode] at hlocate
  rw [show startIn wd (p.under name) = startIn wd p from rfl, h.walk, hend, mapError_ok] at hlocate
  rw [linkAt?, hlocate]
  dsimp only
  rw [hnode]
  cases node <;> rfl

/-! ## Links that were met -/

/-- A link is met under a name behind a path.  Its target leads to a location, with the given number
of links replaced. -/
inductive MeetsLink (t : FileTree) (wd : Location) (here : Path) (name : Text) (j : Nat)
    (mid : Location) : Prop
  | intro {l : Location} {n target : FileName} (hstands : t.Stands wd here l)
    (hencode : encodeName name = .ok n) (hnode : t.node? (n :: l) = some (.link target))
    (htarget : t.Leads j (startOf l target) (segments FileName.isSlash target) mid)

theorem MeetsLink.unique {j' : Nat} {mid' : Location} (h : t.MeetsLink wd here name j mid)
    (h' : t.MeetsLink wd here name j' mid') : j = j' ∧ mid = mid' := by
  obtain ⟨hstands, hencode, hnode, htarget⟩ := h
  obtain ⟨hstands', hencode', hnode', htarget'⟩ := h'
  obtain rfl := hstands.unique hstands'
  obtain rfl := Except.ok.inj (hencode.symm.trans hencode')
  obtain rfl := Node.link.inj (Option.some.inj (hnode.symm.trans hnode'))
  exact htarget.unique htarget'

/-- What is remembered of links that were followed is right: the path stands for the location that
the link led to, and nothing was asked about behind it that the link would not ask about. -/
def Followed.Sound (t : FileTree) (wd : Location) (seen : Followed) : Prop :=
  ∀ {here : Path} {name : Text} {j : Nat} {mid : Location} {p : Path},
    t.MeetsLink wd here name j mid → followed? seen (here.under name) = some (some p) →
    t.Stands wd p mid ∧ ∀ rest q, t.Asks wd p rest q → t.Asks wd here (name :: rest) q

/-- No more links are left to be replaced than inside the target of any link that is being
followed. -/
def Followed.Within (t : FileTree) (wd : Location) (left : Nat) (seen : Followed) : Prop :=
  ∀ {here : Path} {name : Text} {j : Nat} {mid : Location},
    t.MeetsLink wd here name j mid → followed? seen (here.under name) = some none → left ≤ j

/-- No link is being followed that was not followed before. -/
def Followed.NoMorePending (seen seen' : Followed) : Prop :=
  ∀ link : Path, followed? seen' link = some none → followed? seen link = some none

theorem followed?_cons_self (link : Path) (led : Option Path) (seen : Followed) :
    followed? ((link, led) :: seen) link = some led := by
  rw [followed?, List.find?_cons_of_pos (by simp)]
  rfl

theorem followed?_cons_of_ne {link other : Path} (hne : link ≠ other) (led : Option Path)
    (seen : Followed) : followed? ((link, led) :: seen) other = followed? seen other := by
  rw [followed?, List.find?_cons_of_neg (by simpa using hne)]
  rfl

theorem Followed.sound_nil : Followed.Sound t wd [] := by
  intro here name j mid p _ hseen
  cases hseen

theorem Followed.within_nil : Followed.Within t wd k [] := by
  intro here name j mid _ hseen
  cases hseen

/-- A link that begins to be followed is remembered. -/
theorem Followed.Sound.begin {seen : Followed} (h : Followed.Sound t wd seen) (link : Path) :
    Followed.Sound t wd ((link, none) :: seen) := by
  intro here name j mid p hmeets hseen
  by_cases hlink : link = here.under name
  · subst hlink
    rw [followed?_cons_self] at hseen
    cases hseen
  · rw [followed?_cons_of_ne hlink] at hseen
    exact h hmeets hseen

theorem Followed.Within.begin {seen : Followed} {left : Nat} (h : Followed.Within t wd left seen)
    (hmeets : t.MeetsLink wd here name j mid) (hleft : j ≤ left) :
    Followed.Within t wd j ((here.under name, none) :: seen) := by
  intro here' name' j' mid' hmeets' hseen
  by_cases hlink : here.under name = here'.under name'
  · obtain ⟨rfl, rfl⟩ := Path.under_inj hlink
    exact Nat.le_of_eq (hmeets.unique hmeets').1
  · rw [followed?_cons_of_ne hlink] at hseen
    exact Nat.le_trans hleft (h hmeets' hseen)

/-- A link that was followed to its end is remembered with the path that it led to. -/
theorem Followed.Sound.finish {seen : Followed} (h : Followed.Sound t wd seen)
    (hmeets : t.MeetsLink wd here name j mid) (hstands : t.Stands wd p mid)
    (hasks : ∀ rest q, t.Asks wd p rest q → t.Asks wd here (name :: rest) q) :
    Followed.Sound t wd ((here.under name, some p) :: seen) := by
  intro here' name' j' mid' p' hmeets' hseen
  by_cases hlink : here.under name = here'.under name'
  · obtain ⟨rfl, rfl⟩ := Path.under_inj hlink
    rw [followed?_cons_self] at hseen
    obtain rfl := Option.some.inj (Option.some.inj hseen)
    obtain ⟨-, rfl⟩ := hmeets.unique hmeets'
    exact ⟨hstands, hasks⟩
  · rw [followed?_cons_of_ne hlink] at hseen
    exact h hmeets' hseen

theorem Followed.NoMorePending.finish {seen seen' : Followed} {link : Path}
    (h : Followed.NoMorePending ((link, none) :: seen) seen') (p : Path) :
    Followed.NoMorePending seen ((link, some p) :: seen') := by
  intro other hpending
  by_cases hlink : link = other
  · subst hlink
    rw [followed?_cons_self] at hpending
    cases hpending
  · rw [followed?_cons_of_ne hlink] at hpending
    have hbefore := h other hpending
    rwa [followed?_cons_of_ne hlink] at hbefore

/-- Fewer links are left, and no more of them are being followed. -/
theorem Followed.Within.weaken {seen seen' : Followed} {left left' : Nat}
    (h : Followed.Within t wd left seen) (hpending : Followed.NoMorePending seen seen')
    (hleft : left' ≤ left) : Followed.Within t wd left' seen' :=
  fun hmeets hseen => Nat.le_trans hleft (h hmeets (hpending _ hseen))

/-! ## Single steps -/

section Steps

variable {depth : Nat} {rest : List Text} {seen : Followed} {result : Reached × Followed}

theorem resolveFrom_skip (hname : Path.isProperName name = false) :
    t.resolveFrom wd (depth + 1) here (name :: rest) seen =
      t.resolveFrom wd (depth + 1) here rest seen := by
  rw [resolveFrom, follow, hname]
  rfl

theorem resolveFrom_above :
    t.resolveFrom wd (depth + 1) here (".." :: rest) seen =
      t.resolveFrom wd (depth + 1) here.above rest seen := by
  rw [resolveFrom, follow]
  rfl

/-- How an entry of a directory is followed.  It is no link; or it is a link that led to a path
before, or one that is being followed, or one whose target is followed now. -/
inductive EntryFollowed (t : FileTree) (wd : Location) (depth : Nat) (here : Path) (name : Text)
    (rest : List Text) (seen : Followed) (result : Reached × Followed) : Prop
  | plain (hlink : t.linkAt? wd (here.under name) = .ok none)
    (hrest : t.resolveFrom wd (depth + 1) (here.under name) rest seen = .ok result)
  | known {target : Text} {p : Path} (hlink : t.linkAt? wd (here.under name) = .ok (some target))
    (hseen : followed? seen (here.under name) = some (some p))
    (hrest : t.resolveFrom wd (depth + 1) p rest seen = .ok result)
  | pending {target : Text} (hlink : t.linkAt? wd (here.under name) = .ok (some target))
    (hseen : followed? seen (here.under name) = some none)
  | fresh {target : Text} {reached : Reached} {seen' : Followed}
    (hlink : t.linkAt? wd (here.under name) = .ok (some target))
    (htarget : t.resolveFrom wd depth (targetStart here target) (Path.components target)
      ((here.under name, none) :: seen) = .ok (reached, seen'))
    (hrest : ∀ p, reached = .path p →
      t.resolveFrom wd (depth + 1) p rest ((here.under name, some p) :: seen') = .ok result)

theorem entryFollowed_of_resolveFrom (hproper : Path.isProperName name = true)
    (hname : name ≠ "..")
    (h : t.resolveFrom wd (depth + 1) here (name :: rest) seen = .ok result) :
    t.EntryFollowed wd depth here name rest seen result := by
  rw [resolveFrom, follow, hproper, if_neg (by decide), if_neg hname] at h
  obtain ⟨found, hlink, h⟩ := bind_eq_ok.1 h
  cases found with
  | none => exact .plain hlink h
  | some target =>
    dsimp only at h
    split at h
    · rename_i p hseen
      exact .known hlink hseen h
    · rename_i hseen
      exact .pending hlink hseen
    · obtain ⟨⟨reached, seen'⟩, htarget, h⟩ := bind_eq_ok.1 h
      refine .fresh hlink htarget ?_
      rintro p rfl
      exact h

theorem resolveFrom_plain (hproper : Path.isProperName name = true) (hname : name ≠ "..")
    (hlink : t.linkAt? wd (here.under name) = .ok none) :
    t.resolveFrom wd (depth + 1) here (name :: rest) seen =
      t.resolveFrom wd (depth + 1) (here.under name) rest seen := by
  rw [resolveFrom, follow, hproper, if_neg (by decide), if_neg hname]
  change (t.linkAt? wd (here.under name) >>= _) = _
  rw [hlink]
  rfl

theorem resolveFrom_link {target : Text} {seen' : Followed}
    (hproper : Path.isProperName name = true) (hname : name ≠ "..")
    (hlink : t.linkAt? wd (here.under name) = .ok (some target))
    (hseen : followed? seen (here.under name) = none)
    (htarget : t.resolveFrom wd depth (targetStart here target) (Path.components target)
      ((here.under name, none) :: seen) = .ok (.path p, seen')) :
    t.resolveFrom wd (depth + 1) here (name :: rest) seen =
      t.resolveFrom wd (depth + 1) p rest ((here.under name, some p) :: seen') := by
  rw [resolveFrom, follow, hproper, if_neg (by decide), if_neg hname]
  change (t.linkAt? wd (here.under name) >>= _) = _
  rw [hlink, ok_bind]
  dsimp only
  rw [Path.under] at hseen htarget
  rw [hseen]
  dsimp only
  rw [htarget]
  rfl

end Steps

/-! ## Following names -/

theorem anchorOf_eq_relative_iff {t : Text} :
    Path.anchorOf t = .relative ↔ t.head? ≠ some (.char '/') := by
  cases t with
  | nil => exact iff_of_true rfl nofun
  | cons c t =>
    by_cases hc : c = .char '/'
    · subst hc
      refine iff_of_false ?_ (fun hne => hne rfl)
      rw [Path.anchorOf.eq_def]
      split <;> simp_all
    · refine iff_of_true ?_ (by simpa using hc)
      rw [Path.anchorOf.eq_def]
      split <;> simp_all

/-- The names of a target begin where a walk begins with them. -/
theorem Stands.targetStart (h : t.Stands wd p l) (target : FileName) :
    t.Stands wd (targetStart p (decodeName target)) (startOf l target) := by
  have hhead := head?_any_isSlash (encodeName_decodeName target)
  rw [FileTree.targetStart, startOf]
  by_cases hslash : target.head?.any FileName.isSlash = true
  · rw [if_pos hslash,
      if_neg fun hrelative => anchorOf_eq_relative_iff.1 hrelative (hhead.1 hslash)]
    exact .start rfl
  · rw [if_neg hslash, if_pos (anchorOf_eq_relative_iff.2 (mt hhead.2 hslash))]
    exact h

/-- Names were followed to a path without links for the location they lead to.  Nothing is asked
about behind the path that the names would not ask about, and the memory of links is right. -/
structure Arrives (t : FileTree) (wd : Location) (here : Path) (names : List Text) (m : Location)
    (seen : Followed) (p : Path) (seen' : Followed) : Prop where
  stands : t.Stands wd p m
  asks : ∀ rest q, t.Asks wd p rest q → t.Asks wd here (names ++ rest) q
  sound : Followed.Sound t wd seen'
  pending : Followed.NoMorePending seen seen'

theorem Arrives.cons {here' : Path} {names : List Text} {seen seen' : Followed}
    (h : t.Arrives wd here' names m seen p seen')
    (hasks : ∀ rest q, t.Asks wd here' rest q → t.Asks wd here (name :: rest) q) :
    t.Arrives wd here (name :: names) m seen p seen' :=
  ⟨h.stands, fun rest q hbehind => hasks (names ++ rest) q (h.asks rest q hbehind), h.sound,
    h.pending⟩

/-- **Names that lead somewhere are resolved** to a path without links for the location. -/
theorem resolveFrom_of_leads (hwd : t.isDirectory wd = true) {ns : List FileName}
    (h : t.Leads k l ns m) {depth : Nat} {names : List Text} {seen seen' : Followed}
    {reached : Reached} (hstands : t.Stands wd here l)
    (hnames : List.Forall₂ (fun name n => encodeName name = .ok n) names ns)
    (hslashes : ∀ name ∈ names, .char '/' ∉ name) (hshort : ∀ q, t.Asks wd here names q → q.Short)
    (hsound : Followed.Sound t wd seen) (hwithin : Followed.Within t wd k seen)
    (hresolved : t.resolveFrom wd (depth + 1) here names seen = .ok (reached, seen')) :
    ∃ p, reached = .path p ∧ t.Arrives wd here names m seen p seen' := by
  -- By where the names lead.  How deep targets may still be nested does not matter, since the
  -- resolution was not given up.
  induction h generalizing depth here names seen seen' reached with
  | done =>
    obtain rfl := List.forall₂_nil_right_iff.1 hnames
    cases hresolved
    exact ⟨here, rfl, hstands, fun _ _ hasks => hasks, hsound, fun _ hnone => hnone⟩
  | skip hhere hskip _ ih =>
    obtain ⟨name, names, hencode, hrest, rfl⟩ := List.forall₂_cons_right_iff.1 hnames
    obtain ⟨-, hslashes⟩ := List.forall_mem_cons.1 hslashes
    have hname : Path.isProperName name = false := (isProper_iff hencode).symm.trans hskip
    rw [resolveFrom_skip hname] at hresolved
    obtain ⟨p, hreached, harrives⟩ := ih hstands hrest hslashes
      (fun q hasks => hshort q (.skip hname hasks)) hsound hwithin hresolved
    exact ⟨p, hreached, harrives.cons fun rest q hasks => .skip hname hasks⟩
  | above hhere _ ih =>
    obtain ⟨name, names, hencode, hrest, rfl⟩ := List.forall₂_cons_right_iff.1 hnames
    obtain ⟨-, hrestSlashes⟩ := List.forall_mem_cons.1 hslashes
    obtain rfl := (eq_above_iff hencode).1 rfl
    rw [resolveFrom_above] at hresolved
    obtain ⟨p, hreached, harrives⟩ := ih (hstands.above hhere) hrest hrestSlashes
      (fun q hasks => hshort q (.above hasks)) hsound hwithin hresolved
    exact ⟨p, hreached, harrives.cons fun rest q hasks => .above hasks⟩
  | @enter k l m n ns node hhere hentry hnode hplain _ ih =>
    obtain ⟨name, names, hencode, hrest, rfl⟩ := List.forall₂_cons_right_iff.1 hnames
    obtain ⟨hslash, hslashes⟩ := List.forall_mem_cons.1 hslashes
    obtain ⟨⟨hproper, -⟩, hne⟩ := isName_of_isEntry hentry hencode hslash
    have hfound : ∀ {found : Option Text}, t.linkAt? wd (here.under name) = .ok found →
        found = none := by
      intro found hlink
      rw [linkAt?_under hwd hstands hhere hslash hencode hentry hnode
        (hshort _ (.entry hproper hne)) (canBeGiven_of_linkAt? hlink),
        linkTarget?_of_isPlain hplain] at hlink
      exact (Except.ok.inj hlink).symm
    cases entryFollowed_of_resolveFrom hproper hne hresolved with
    | plain hlink hresolved =>
      have hnext := hstands.enter hhere hslash hencode hentry hnode hplain
      obtain ⟨p, hreached, harrives⟩ := ih hnext hrest hslashes
        (fun q hasks => hshort q (.enter hproper hne hlink hasks)) hsound hwithin hresolved
      exact ⟨p, hreached, harrives.cons fun rest q hasks => .enter hproper hne hlink hasks⟩
    | known hlink => cases hfound hlink
    | pending hlink => cases hfound hlink
    | fresh hlink => cases hfound hlink
  | @link j k l mid m n target ns hhere hentry hnode htarget _ ihtarget ihrest =>
    obtain ⟨name, names, hencode, hrest, rfl⟩ := List.forall₂_cons_right_iff.1 hnames
    obtain ⟨hslash, hslashes⟩ := List.forall_mem_cons.1 hslashes
    obtain ⟨⟨hproper, -⟩, hne⟩ := isName_of_isEntry hentry hencode hslash
    have hmeets : t.MeetsLink wd here name j mid := ⟨hstands, hencode, hnode, htarget⟩
    have hfound : ∀ {found : Option Text}, t.linkAt? wd (here.under name) = .ok found →
        found = some (decodeName target) := by
      intro found hlink
      rw [linkAt?_under hwd hstands hhere hslash hencode hentry hnode
        (hshort _ (.entry hproper hne)) (canBeGiven_of_linkAt? hlink)] at hlink
      exact (Except.ok.inj hlink).symm
    cases entryFollowed_of_resolveFrom hproper hne hresolved with
    | plain hlink => cases hfound hlink
    | @known target' p hlink hseen hresolved =>
      -- the link is not followed again, but what it led to is where the walk goes on
      obtain ⟨hp, hasksBehind⟩ := hsound hmeets hseen
      have hfewer : Followed.Within t wd k seen :=
        hwithin.weaken (fun _ hnone => hnone) (by omega)
      obtain ⟨q, hreached, harrives⟩ := ihrest hp hrest hslashes
        (fun q hasks => hshort q (hasksBehind names q hasks)) hsound hfewer hresolved
      exact ⟨q, hreached, harrives.cons fun rest q hasks => hasksBehind rest q hasks⟩
    | pending hlink hseen =>
      -- more links are left than the target has, so the walk is not inside of it
      have hleft := hwithin hmeets hseen
      omega
    | @fresh target' reached' seen₁ hlink hresolvedTarget hresolved =>
      obtain rfl := Option.some.inj (hfound hlink)
      cases depth with
      | zero => cases hresolvedTarget
      | succ depth =>
        obtain ⟨p, hreached', htargetArrives⟩ := ihtarget (hstands.targetStart target)
          (forall₂_segments (encodeName_decodeName target))
          (fun name hname => Path.slash_notMem_of_mem_components hname)
          (fun q hasks => hshort q (.link hproper hne hlink (hasks.append names)))
          (hsound.begin _) (hwithin.begin hmeets (by omega)) hresolvedTarget
        have hasksBehind : ∀ rest q, t.Asks wd p rest q → t.Asks wd here (name :: rest) q :=
          fun rest q hasks => .link hproper hne hlink (htargetArrives.asks rest q hasks)
        have hpending := htargetArrives.pending.finish p
        have hfewer : Followed.Within t wd k ((here.under name, some p) :: seen₁) :=
          hwithin.weaken hpending (by omega)
        have hledSound : Followed.Sound t wd ((here.under name, some p) :: seen₁) :=
          Followed.Sound.finish htargetArrives.sound hmeets htargetArrives.stands hasksBehind
        obtain ⟨q, hreached, harrives⟩ := ihrest htargetArrives.stands hrest hslashes
          (fun q hasks => hshort q (hasksBehind names q hasks)) hledSound hfewer
          (hresolved p hreached')
        have hall := harrives.cons hasksBehind
        exact ⟨q, hreached, hall.stands, hall.asks, hall.sound, fun link hseen =>
          hpending link (harrives.pending link hseen)⟩

end FileTree

/-! ## The host -/

namespace Path

/-- The names of a path that can be given are those that it is walked by. -/
theorem forall₂_fileNames {p : Path} (h : p.CanBeGiven) :
    List.Forall₂ (fun name n => encodeName name = .ok n) p.names p.fileNames := by
  have hnames : ∀ name ∈ p.names, ∃ n, encodeName name = .ok n := by
    intro name hname
    obtain ⟨n, hn, -⟩ := exists_encodeName_iff.2 (canBeGiven_iff.1 h name hname)
    exact ⟨n, hn⟩
  rw [fileNames]
  generalize p.names = names at hnames
  induction names with
  | nil => exact .nil
  | cons name names ih =>
    obtain ⟨⟨n, hn⟩, hnames⟩ := List.forall_mem_cons.1 hnames
    rw [List.filterMap_cons_some (by rw [hn]; rfl)]
    exact .cons hn (ih hnames)

end Path

namespace Host

variable {h : Host} {p q resolved : Path} {m : Location} {spot : Spot}

theorem find_eq_ok_iff : h.find p = .ok m ↔ h.spot p = .ok (.taken m) := by
  rw [find, bind_eq_ok]
  constructor
  · rintro ⟨spot, hspot, hfound⟩
    cases spot with
    | taken l =>
      obtain rfl := Except.ok.inj hfound
      exact hspot
    | vacant parent name => cases hfound
  · intro hspot
    exact ⟨.taken m, hspot, rfl⟩

/-- A path leads somewhere if it can be given, is short, and its names are walked to there. -/
theorem spot_eq_ok_iff_walk (hwd : h.tree.isDirectory h.workingDirectory = true) (hp : p.Proper) :
    h.spot p = .ok spot ↔ p.CanBeGiven ∧ p.Short ∧
      h.tree.walk true FileTree.linkBudget (FileTree.startIn h.workingDirectory p) p.fileNames =
        .ok spot := by
  constructor
  · intro hspot
    have hgiven : p.CanBeGiven := by
      refine Classical.byContradiction fun hnot => ?_
      obtain ⟨fault, hfault, -⟩ := FileTree.locate_of_not_canBeGiven (t := h.tree) hnot true
      cases hspot.symm.trans hfault
    have hshort : p.Short := by
      obtain ⟨names, hnames, -, hlength, -⟩ := spot_eq_ok_iff.1 hspot
      intro names' hnames'
      obtain rfl := Except.ok.inj (hnames.symm.trans hnames')
      exact hlength
    have hlocate := (FileTree.locate_eq hwd hp hgiven hshort true).symm.trans hspot
    exact ⟨hgiven, hshort, mapError_eq_ok.1 hlocate⟩
  · rintro ⟨hgiven, hshort, hwalk⟩
    have hlocate := FileTree.locate_eq hwd hp hgiven hshort true
    rw [hwalk, mapError_ok] at hlocate
    exact hlocate

/-- The paths that are asked about when a path is resolved. -/
def AsksAbout (h : Host) (p q : Path) : Prop :=
  h.tree.Asks h.workingDirectory (if p.anchor = .relative then {} else ⟨.root, []⟩) p.names q

/-- **The path that is resolved** leads to where the path led, if no path that is asked about is too
long. -/
theorem stands_of_resolve (hwd : h.tree.Rooted h.workingDirectory) (hp : p.Proper)
    (hshort : ∀ q, h.AsksAbout p q → q.Short) (hfind : h.find p = .ok m)
    (hresolve : h.resolve p = .ok resolved) :
    h.tree.Stands h.workingDirectory resolved m := by
  obtain ⟨hgiven, -, hwalk⟩ := (spot_eq_ok_iff_walk hwd.isDirectory hp).1 (find_eq_ok_iff.1 hfind)
  obtain ⟨k, hleads⟩ := FileTree.exists_leads_of_walk _ _ _ hwalk
  obtain ⟨path, hpath, hanswer⟩ := bind_eq_ok.1 hresolve
  have hsame : path = resolved := by
    split at hanswer
    · exact Except.ok.inj hanswer
    · cases hanswer
    · exact Except.ok.inj hanswer
    · cases hanswer
  subst hsame
  obtain ⟨⟨reached, seen⟩, hreached, hdone⟩ := bind_eq_ok.1 hpath
  have hstart : h.tree.Stands h.workingDirectory
      (if p.anchor = .relative then {} else ⟨.root, []⟩)
      (FileTree.startIn h.workingDirectory p) := by
    rw [FileTree.startIn]
    split
    · exact .start rfl
    · exact .start rfl
  obtain ⟨last, rfl, harrives⟩ := FileTree.resolveFrom_of_leads hwd.isDirectory hleads hstart
    (Path.forall₂_fileNames hgiven) (fun name hname => (hp name hname).2) hshort
    FileTree.Followed.sound_nil FileTree.Followed.within_nil hreached
  obtain rfl := Except.ok.inj hdone
  exact harrives.stands.absolute hwd

theorem fileNames_join (p : Path) (hq : q.anchor = .relative) :
    (p.join q).fileNames = p.fileNames ++ q.fileNames := by
  rw [Path.join, if_pos hq, Path.fileNames, List.filterMap_append]
  rfl

/-- **What is seen from a path** is seen from a path without links for the same location too, if
its path is short there. -/
theorem spot_join (hwd : h.tree.isDirectory h.workingDirectory = true) (hp : p.Proper)
    (hq : q.Proper) (hrelative : q.anchor = .relative) (hfind : h.find p = .ok m)
    (hstands : h.tree.Stands h.workingDirectory resolved m) (hgiven : resolved.CanBeGiven)
    (hshort : (resolved.join q).Short) (hspot : h.spot (p.join q) = .ok spot) :
    h.spot (resolved.join q) = .ok spot := by
  have hproper : ∀ {a : Path}, a.Proper → (a.join q).Proper := by
    intro a ha name hname
    rw [Path.join, if_pos hrelative] at hname
    exact (List.mem_append.1 hname).elim (ha name) (hq name)
  have hstart : ∀ a : Path, FileTree.startIn h.workingDirectory (a.join q) =
      FileTree.startIn h.workingDirectory a := by
    intro a
    rw [Path.join, if_pos hrelative]
    rfl
  obtain ⟨-, -, hwalk⟩ := (spot_eq_ok_iff_walk hwd hp).1 (find_eq_ok_iff.1 hfind)
  obtain ⟨k, hleads⟩ := FileTree.exists_leads_of_walk _ _ _ hwalk
  obtain ⟨hgivenJoin, -, hwalkJoin⟩ := (spot_eq_ok_iff_walk hwd (hproper hp)).1 hspot
  rw [hstart, fileNames_join p hrelative] at hwalkJoin
  obtain ⟨left, hleft, hbehind⟩ := hleads.walk_append hwalkJoin
  refine (spot_eq_ok_iff_walk hwd (hproper hstands.proper)).2 ⟨?_, hshort, ?_⟩
  · rw [Path.canBeGiven_iff] at hgiven hgivenJoin ⊢
    rw [Path.join, if_pos hrelative] at hgivenJoin ⊢
    intro name hname
    rcases List.mem_append.1 hname with hname | hname
    · exact hgiven name hname
    · exact hgivenJoin name (List.mem_append_right _ hname)
  · rw [hstart, fileNames_join resolved hrelative, hstands.walk]
    exact FileTree.walk_mono _ _ _ hbehind _ hleft

end Host

end ProjectAudit
