import ProjectAudit.Proofs.Run.Faulting
import ProjectAudit.Rules.Registry
import Mathlib.Data.List.Nodup

/-!
# What a registry holds after any calls

A registry begins empty and is changed by registering alone.  A call either adds one rule behind the
others or leaves the registry as it was, and it adds the rule only if its id and its description are
new and not empty.  So whatever is called, and whether the calls are rejected or not, the ids tell
the rules apart, and so do the descriptions.

* `Registry.afterCalls`: the registry after a history of calls.
* `Registry.register_eq_ok_iff`, `Registry.afterCall_of_not_accepts`: what one call does.
* `Registry.isKeyed_afterCalls`: what holds after every history.
* `Registry.create_eq_ok`: the rules that are created for some ids.
-/

namespace ProjectAudit

namespace Registry

/-- The registry after a call, which is the same one if the call is rejected. -/
def afterCall (r : Registry) (rule : RegisteredRule) : Registry :=
  match r.register rule with
  | .ok r' => r'
  | .error _ => r

/-- The registry after calls, in order, on an empty one. -/
def afterCalls (calls : List RegisteredRule) : Registry :=
  calls.foldl afterCall {}

/-- The ids that are registered, in order. -/
def ids (r : Registry) : List Text :=
  r.rules.map (·.id)

/-- The descriptions that are registered, in order. -/
def descriptions (r : Registry) : List Text :=
  r.rules.map (·.description)

/-- Neither the id nor the description of the rule is empty or taken. -/
structure Accepts (r : Registry) (rule : RegisteredRule) : Prop where
  id_ne_nil : rule.id ≠ []
  id_notMem : rule.id ∉ r.ids
  description_ne_nil : rule.description ≠ []
  description_notMem : rule.description ∉ r.descriptions

/-- Ids and descriptions are not empty, and each of the two tells the rules apart. -/
structure IsKeyed (r : Registry) : Prop where
  id_ne_nil : ∀ id ∈ r.ids, id ≠ []
  nodup_ids : r.ids.Nodup
  description_ne_nil : ∀ description ∈ r.descriptions, description ≠ []
  nodup_descriptions : r.descriptions.Nodup

variable {r r' : Registry} {rule : RegisteredRule}

/-! ## One call -/

/-- **A rule is registered** exactly if the registry accepts it, and then it stands behind the
others. -/
theorem register_eq_ok_iff :
    r.register rule = .ok r' ↔ r.Accepts rule ∧ r' = ⟨r.rules ++ [rule]⟩ := by
  have hid : (r.rules.any fun other => other.id == rule.id) = true ↔ rule.id ∈ r.ids := by
    simp [ids]
  have hdescription : (r.rules.any fun other => other.description == rule.description) = true ↔
      rule.description ∈ r.descriptions := by
    simp [descriptions]
  rw [register]
  constructor
  · intro hregister
    split at hregister
    · cases hregister
    split at hregister
    · cases hregister
    split at hregister
    · cases hregister
    split at hregister
    · cases hregister
    · rename_i hempty htaken hempty' htaken'
      refine ⟨⟨?_, fun hmem => htaken (hid.2 hmem), ?_, fun hmem => htaken' (hdescription.2 hmem)⟩,
        (Except.ok.inj hregister).symm⟩
      · simpa using hempty
      · simpa using hempty'
  · rintro ⟨haccepts, rfl⟩
    rw [if_neg (by simpa using haccepts.id_ne_nil),
      if_neg (fun htaken => haccepts.id_notMem (hid.1 htaken)),
      if_neg (by simpa using haccepts.description_ne_nil),
      if_neg (fun htaken => haccepts.description_notMem (hdescription.1 htaken))]

theorem afterCall_of_accepts (haccepts : r.Accepts rule) :
    r.afterCall rule = ⟨r.rules ++ [rule]⟩ := by
  rw [afterCall, register_eq_ok_iff.2 ⟨haccepts, rfl⟩]

/-- A rejected call leaves the registry as it was. -/
theorem afterCall_of_not_accepts (haccepts : ¬ r.Accepts rule) :
    (∃ e, r.register rule = .error e) ∧ r.afterCall rule = r := by
  rw [afterCall]
  cases hregister : r.register rule with
  | ok r' => exact absurd (register_eq_ok_iff.1 hregister).1 haccepts
  | error e => exact ⟨⟨e, rfl⟩, rfl⟩

theorem IsKeyed.afterCall (hkeyed : r.IsKeyed) (rule : RegisteredRule) :
    (r.afterCall rule).IsKeyed := by
  by_cases haccepts : r.Accepts rule
  · rw [afterCall_of_accepts haccepts]
    have hids : ids ⟨r.rules ++ [rule]⟩ = r.ids ++ [rule.id] := by simp [ids]
    have hdescriptions :
        descriptions ⟨r.rules ++ [rule]⟩ = r.descriptions ++ [rule.description] := by
      simp [descriptions]
    constructor
    · intro id hmem
      rw [hids, List.mem_append, List.mem_singleton] at hmem
      rcases hmem with hmem | rfl
      · exact hkeyed.id_ne_nil id hmem
      · exact haccepts.id_ne_nil
    · rw [hids, ← List.concat_eq_append]
      exact hkeyed.nodup_ids.concat haccepts.id_notMem
    · intro description hmem
      rw [hdescriptions, List.mem_append, List.mem_singleton] at hmem
      rcases hmem with hmem | rfl
      · exact hkeyed.description_ne_nil description hmem
      · exact haccepts.description_ne_nil
    · rw [hdescriptions, ← List.concat_eq_append]
      exact hkeyed.nodup_descriptions.concat haccepts.description_notMem
  · rw [(afterCall_of_not_accepts haccepts).2]
    exact hkeyed

/-! ## Any calls -/

theorem afterCalls_concat (calls : List RegisteredRule) (rule : RegisteredRule) :
    afterCalls (calls ++ [rule]) = (afterCalls calls).afterCall rule := by
  rw [afterCalls, List.foldl_append]
  rfl

/-- What holds of a registry holds of it after any further calls. -/
theorem IsKeyed.foldl_afterCall (hkeyed : r.IsKeyed) (calls : List RegisteredRule) :
    (calls.foldl Registry.afterCall r).IsKeyed := by
  induction calls generalizing r with
  | nil => exact hkeyed
  | cons rule calls ih => exact ih (hkeyed.afterCall rule)

/-- **After every history of calls**, ids and descriptions tell the rules apart. -/
theorem isKeyed_afterCalls (calls : List RegisteredRule) : (afterCalls calls).IsKeyed := by
  have hempty : IsKeyed {} :=
    ⟨by simp [ids], List.nodup_nil, by simp [descriptions], List.nodup_nil⟩
  exact hempty.foldl_afterCall calls

/-! ## Creating rules -/

theorem get_eq_ok {id : Text} (hid : id ∈ r.ids) :
    ∃ rule ∈ r.rules, r.get id = .ok rule ∧ rule.id = id := by
  rw [get]
  obtain ⟨registered, hmem, rfl⟩ := List.mem_map.1 hid
  cases hfind : r.rules.find? fun rule => rule.id == registered.id with
  | none => exact absurd (beq_self_eq_true _) (List.find?_eq_none.1 hfind registered hmem)
  | some rule =>
    refine ⟨rule, List.mem_of_find?_eq_some hfind, rfl, ?_⟩
    simpa using List.find?_some hfind

/-- For ids that are registered, one rule is created for each, in the order of the ids. -/
theorem create_eq_ok {wanted : List Text} (hwanted : ∀ id ∈ wanted, id ∈ r.ids) :
    ∃ created, r.create wanted = .ok created ∧ created.map (·.id) = wanted ∧
      ∀ rule ∈ created, rule ∈ r.rules := by
  induction wanted with
  | nil => exact ⟨[], rfl, rfl, by simp⟩
  | cons id wanted ih =>
    obtain ⟨hid, hrest⟩ := List.forall_mem_cons.1 hwanted
    obtain ⟨rule, hrule, hget, rfl⟩ := get_eq_ok hid
    obtain ⟨created, hcreate, hids, hmem⟩ := ih hrest
    refine ⟨rule :: created, ?_, ?_, List.forall_mem_cons.2 ⟨hrule, hmem⟩⟩
    · rw [create] at hcreate ⊢
      rw [List.mapM_cons, hget, hcreate]
      rfl
    · rw [List.map_cons, hids]

/-- Rules that differ in their ids differ in their descriptions. -/
theorem IsKeyed.nodup_map_description (hkeyed : r.IsKeyed) {created : List RegisteredRule}
    (hnodup : (created.map (·.id)).Nodup) (hmem : ∀ rule ∈ created, rule ∈ r.rules) :
    (created.map (·.description)).Nodup := by
  refine List.Nodup.map_on ?_ (List.Nodup.of_map _ hnodup)
  intro a ha b hb hsame
  exact List.inj_on_of_nodup_map hkeyed.nodup_descriptions (hmem a ha) (hmem b hb) hsame

end Registry

end ProjectAudit
