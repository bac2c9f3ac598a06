import ProjectAudit.Proofs.Files.Resolved

/-!
# A link to a location

A link at the root whose target names a location is a short way to it: what is behind the link is
behind the location, however long the path of the location is.  A walk goes on from the location,
and the resolution of a path goes on from the path of the location.

The target is a name, so it is read as a text when it is resolved.  Here its bytes are ASCII, and
then its names have no other texts than those of the location.

A tree is a list of entries, and what stands somewhere in it is found entry by entry.

* `FileTree.node?_append`, `FileTree.namesIn_append`: trees in parts.
* `FileTree.Rooted.walk_linkTo`: a walk through the link.
* `FileTree.exists_resolveFrom_linkTo`: the resolution of a path through the link.
-/

namespace ProjectAudit

/-- The names of a location as the target of a link. -/
def linkTo (l : Location) : FileName :=
  Path.slashed l.reverse

theorem segments_slashed {ns : List FileName}
    (hslash : ∀ n ∈ ns, ∀ b ∈ n, FileName.isSlash b = false) :
    segments FileName.isSlash (Path.slashed ns) = [] :: ns := by
  induction ns with
  | nil => rfl
  | cons n ns ih =>
    obtain ⟨hn, hns⟩ := List.forall_mem_cons.1 hslash
    obtain ⟨first, others, hrest, happend⟩ := segments_append hn (Path.slashed ns)
    rw [ih hns] at hrest
    obtain ⟨rfl, rfl⟩ := List.cons.inj hrest
    rw [Path.slashed_cons, List.cons_append, segments_slash rfl, happend, List.append_nil]

/-- A path with a name behind it, which is read as a path itself. -/
theorem Path.child_eq_under (p : Path) {name : Text} (hname : IsName name) :
    p.child name = p.under name := by
  have hcomponents : components name = [name] :=
    segments_of_free fun c hc => Bool.eq_false_iff.2 fun heq => hname.2 (eq_of_beq heq ▸ hc)
  have hanchor : anchorOf name = .relative :=
    FileTree.anchorOf_eq_relative_iff.2 fun hhead => hname.2 (List.mem_of_head? hhead)
  have hpath : ofText name = ⟨.relative, [name]⟩ := by
    rw [ofText, hcomponents, hanchor, List.filter_cons_of_pos hname.1, List.filter_nil]
  rw [child, hpath]
  rfl

/-- The path of an entry. -/
theorem child_ofLocation {l : Location} {n : FileName} (hname : n.IsEntry)
    (hslash : ∀ b ∈ n, FileName.isSlash b = false) :
    (Path.ofLocation l).child (decodeName n) = Path.ofLocation (n :: l) := by
  have hencode := encodeName_decodeName n
  rw [Path.ofLocation_cons]
  exact Path.child_eq_under _
    (FileTree.isName_of_isEntry hname hencode (slash_notMem_of_encodeName hencode hslash)).1

/-- ASCII names have the texts that they are decoded to, and no others. -/
theorem eq_map_decodeName {names : List Text} {ns : List FileName}
    (h : List.Forall₂ (fun name n => encodeName name = .ok n) names ns)
    (hascii : ∀ n ∈ ns, ∀ b ∈ n, b.toNat < 0x80) : names = ns.map decodeName := by
  induction h with
  | nil => rfl
  | @cons name n _ _ hname _ ih =>
    obtain ⟨hn, hns⟩ := List.forall_mem_cons.1 hascii
    rw [List.map_cons, ← ih hns, eq_of_encodeName_ascii hname hn,
      eq_of_encodeName_ascii (encodeName_decodeName n) hn]

namespace FileTree

/-! ## Trees in parts -/

section Parts

variable {es fs : List (Location × Node)} {e : Location × Node} {l : Location} {node : Node}
  {n : FileName}

theorem node?_append : (mk (es ++ fs)).node? l = ((mk es).node? l).or ((mk fs).node? l) := by
  rw [node?, node?, node?, List.find?_append]
  split
  · rfl
  · rw [Option.map_or]

theorem node?_eq_none (hsome : l ≠ []) (h : ∀ e ∈ es, e.1 ≠ l) : (mk es).node? l = none := by
  have hnone : es.find? (fun e => e.1 == l) = none :=
    List.find?_eq_none.2 fun e he heq => h e he (eq_of_beq heq)
  rw [node?, if_neg hsome, hnone]
  rfl

theorem node?_cons_self (hsome : l ≠ []) : (mk ((l, node) :: es)).node? l = some node := by
  rw [node?, if_neg hsome, List.find?_cons_of_pos (by simp)]
  rfl

theorem node?_cons_of_ne (hne : e.1 ≠ l) : (mk (e :: es)).node? l = (mk es).node? l := by
  rw [node?, node?, List.find?_cons_of_neg (by simpa using hne)]

theorem namesIn_append : (mk (es ++ fs)).namesIn l = (mk es).namesIn l ++ (mk fs).namesIn l :=
  List.filterMap_append

theorem namesIn_eq_nil (h : ∀ e ∈ es, e.1.tail ≠ l) : (mk es).namesIn l = [] := by
  refine List.filterMap_eq_nil_iff.2 fun e he => ?_
  have hne := h e he
  split
  · rename_i heq
    rw [heq] at hne
    exact if_neg hne
  · rfl

theorem namesIn_cons_self : (mk ((n :: l, node) :: es)).namesIn l = n :: (mk es).namesIn l :=
  List.filterMap_cons_some (if_pos rfl)

end Parts

/-! ## A way through a link -/

variable {t : FileTree} {wd l : Location} {n : FileName}

theorem Rooted.slash_free (h : t.Rooted l) : ∀ n ∈ l, ∀ b ∈ n, FileName.isSlash b = false := by
  induction h with
  | root => exact fun n hn => absurd hn List.not_mem_nil
  | inside _ _ hslash _ ih => exact List.forall_mem_cons.2 ⟨hslash, ih⟩

theorem Rooted.segments_linkTo (h : t.Rooted l) :
    segments FileName.isSlash (linkTo l) = [] :: l.reverse :=
  segments_slashed fun n hn => h.slash_free n (List.mem_reverse.1 hn)

/-- **A walk through the link** goes on from the location. -/
theorem Rooted.walk_linkTo (h : t.Rooted l) (hname : n.IsEntry)
    (hnode : t.node? [n] = some (.link (linkTo l))) (budget : Nat) (rest : List FileName) :
    t.walk true (budget + 1) [] (n :: rest) = t.walk true budget l rest := by
  have hroot : t.isDirectory [] = true := Rooted.root.isDirectory
  have hlead : ∀ m ∈ [([] : FileName)], FileName.isProper m = false :=
    List.forall_mem_singleton.2 rfl
  have hstands := (h.stands []).walk true budget rest
  rw [Path.fileNames_ofLocation] at hstands
  rw [walk_link hroot hname hnode, startOf, ite_self, h.segments_linkTo, ← hstands]
  exact walk_lead hroot hlead true budget

/-- **A path that is resolved through the link** is resolved on from the path of the location. -/
theorem exists_resolveFrom_linkTo (hwd : t.isDirectory wd = true) (h : t.Rooted l)
    (hzero : ∀ m ∈ l, (0 : UInt8) ∉ m) (hascii : ∀ m ∈ l, ∀ b ∈ m, b.toNat < 0x80)
    (hname : n.IsEntry) (hslash : ∀ b ∈ n, FileName.isSlash b = false) (hn : (0 : UInt8) ∉ n)
    (hnode : t.node? [n] = some (.link (linkTo l))) (depth : Nat) (rest : List Text) :
    ∃ seen, t.resolveFrom wd (depth + 2) ⟨.root, []⟩ (decodeName n :: rest) [] =
      t.resolveFrom wd (depth + 2) (Path.ofLocation l) rest seen := by
  have hencode := encodeName_decodeName n
  have hfree := slash_notMem_of_encodeName hencode hslash
  obtain ⟨⟨hproper, -⟩, hne⟩ := isName_of_isEntry hname hencode hfree
  have hgiven : (Path.ofLocation [n]).CanBeGiven :=
    Path.canBeGiven_ofLocation (List.forall_mem_singleton.2 hn)
  have hshort : (Path.ofLocation [n]).Short := by
    have hlength := hname.length_le
    rw [Path.short_ofLocation_iff (List.cons_ne_nil _ _) (List.forall_mem_singleton.2 hn)]
    show 1 + (47 :: n ++ []).length ≤ 4096
    rw [List.append_nil, List.length_cons]
    rw [maxNameBytes] at hlength
    omega
  have hlink : t.linkAt? wd (Path.under ⟨.root, []⟩ (decodeName n)) =
      .ok (some (decodeName (linkTo l))) :=
    linkAt?_under hwd (Rooted.root.stands wd) Rooted.root.isDirectory hfree hencode hname hnode
      hshort hgiven
  -- nothing stands in front of the first slash of the target, and this is passed over
  have hcomponents : Path.components (decodeName (linkTo l)) = [] :: l.reverse.map decodeName := by
    have hboth := forall₂_segments (encodeName_decodeName (linkTo l))
    rw [h.segments_linkTo] at hboth
    refine eq_map_decodeName hboth (List.forall_mem_cons.2 ⟨?_, ?_⟩)
    · exact fun b hb => absurd hb List.not_mem_nil
    · exact fun m hm => hascii m (List.mem_reverse.1 hm)
  have htarget : t.resolveFrom wd (depth + 1) (targetStart ⟨.root, []⟩ (decodeName (linkTo l)))
      (Path.components (decodeName (linkTo l))) [(Path.under ⟨.root, []⟩ (decodeName n), none)] =
        .ok (.path (Path.ofLocation l), [(Path.under ⟨.root, []⟩ (decodeName n), none)]) := by
    have hall := resolveFrom_ofLocation hwd h hzero depth []
      [(Path.under ⟨.root, []⟩ (decodeName n), none)]
    rw [List.append_nil] at hall
    rw [hcomponents, targetStart, ite_self, resolveFrom_skip rfl]
    exact hall
  exact ⟨_, resolveFrom_link hproper hne hlink rfl htarget⟩

end FileTree

end ProjectAudit
