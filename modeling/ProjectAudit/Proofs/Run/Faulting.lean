import ProjectAudit.Proofs.Run.Laws

/-!
# Computations without a value

A computation either has a value or fails, and which of the two it does is read off its parts: a
sequence fails if its first part does, or if its second part does on the value of the first one.
The laws below say so for each way of putting computations together, so that the failures of a
large one are found by rewriting.

* `Fails`, `Run.Faults`: a computation, and a run from a script, that end without a value.
* `firstSome`: the search for the first item with an answer, which several searches are.
  `fails_firstSome_iff` says where it fails: at an item before which no item has an answer.
-/

namespace ProjectAudit

variable {ε δ α β : Type}

/-- The computation has no value. -/
def Fails (r : Except ε α) : Prop :=
  ∃ e, r = .error e

theorem not_fails_ok (a : α) : ¬ Fails (.ok a : Except ε α) := by
  rintro ⟨e, he⟩
  cases he

theorem fails_error (e : ε) : Fails (.error e : Except ε α) :=
  ⟨e, rfl⟩

instance (r : Except ε α) : Decidable (Fails r) :=
  match r with
  | .ok a => isFalse (not_fails_ok a)
  | .error e => isTrue (fails_error e)

theorem not_fails_iff {r : Except ε α} : ¬ Fails r ↔ ∃ a, r = .ok a := by
  cases r with
  | error e => exact ⟨fun h => absurd (fails_error e) h, fun ⟨_, h⟩ => by cases h⟩
  | ok a => exact ⟨fun _ => ⟨a, rfl⟩, fun _ => not_fails_ok a⟩

@[simp] theorem fails_mapError {f : ε → δ} {r : Except ε α} : Fails (r.mapError f) ↔ Fails r := by
  cases r with
  | error e => exact ⟨fun _ => fails_error e, fun _ => fails_error (f e)⟩
  | ok a => exact ⟨fun h => absurd h (not_fails_ok a), fun h => absurd h (not_fails_ok a)⟩

theorem mapError_ok (f : ε → δ) (a : α) : (.ok a : Except ε α).mapError f = .ok a := rfl

theorem mapError_error (f : ε → δ) (e : ε) :
    (.error e : Except ε α).mapError f = .error (f e) := rfl

theorem mapError_eq_ok {f : ε → δ} {r : Except ε α} {a : α} :
    r.mapError f = .ok a ↔ r = .ok a := by
  cases r with
  | error e => simp [mapError_error]
  | ok b => simp [mapError_ok]

theorem map_eq_ok {f : α → β} {r : Except ε α} {b : β} :
    r.map f = .ok b ↔ ∃ a, r = .ok a ∧ f a = b := by
  cases r with
  | error e => simp [Except.map]
  | ok a => simp [Except.map]

theorem ok_bind (a : α) (f : α → Except ε β) : (Except.ok a >>= f) = f a :=
  rfl

theorem bind_eq_ok {r : Except ε α} {f : α → Except ε β} {b : β} :
    r >>= f = .ok b ↔ ∃ a, r = .ok a ∧ f a = .ok b := by
  cases r with
  | error e => simp [bind, Except.bind]
  | ok a => simp [bind, Except.bind]

@[simp] theorem fails_map {f : α → β} {r : Except ε α} : Fails (r.map f) ↔ Fails r := by
  cases r with
  | error e => exact ⟨fun _ => fails_error e, fun _ => fails_error e⟩
  | ok a => exact ⟨fun h => absurd h (not_fails_ok (f a)), fun h => absurd h (not_fails_ok a)⟩

theorem fails_bind {r : Except ε α} {f : α → Except ε β} :
    Fails (r >>= f) ↔ Fails r ∨ ∃ a, r = .ok a ∧ Fails (f a) := by
  cases r with
  | error e => exact ⟨fun _ => .inl (fails_error e), fun _ => fails_error e⟩
  | ok a =>
    constructor
    · exact fun h => .inr ⟨a, rfl, h⟩
    · rintro (h | ⟨b, hb, h⟩)
      · exact absurd h (not_fails_ok a)
      · cases hb
        exact h

/-- Going through a list fails at one of its items. -/
theorem fails_mapM {f : α → Except ε β} {l : List α} :
    Fails (l.mapM f) ↔ ∃ a ∈ l, Fails (f a) := by
  induction l with
  | nil => simp [pure, Except.pure, not_fails_ok]
  | cons a l ih =>
    rw [List.mapM_cons, fails_bind]
    simp only [List.mem_cons, exists_eq_or_imp]
    cases ha : f a with
    | error e => simp [fails_error]
    | ok b =>
      have hrest : Fails (do let bs ← l.mapM f; pure (b :: bs)) ↔ Fails (l.mapM f) := by
        rw [fails_bind]
        exact or_iff_left fun ⟨bs, _, h⟩ => not_fails_ok _ h
      simp only [not_fails_ok, false_or, Except.ok.injEq, exists_eq_left', hrest, ih]

/-- Two checks, one after the other, are passed exactly if each of them is. -/
theorem check_then_eq_ok_iff {x y : Except ε Unit} :
    (x >>= fun _ => y) = .ok () ↔ x = .ok () ∧ y = .ok () := by
  rw [bind_eq_ok]
  exact ⟨fun ⟨_, hxy⟩ => hxy, fun hxy => ⟨(), hxy⟩⟩

/-- A list of checks is gone through to its end exactly if each of them is passed. -/
theorem forM_eq_ok_iff {f : α → Except ε Unit} {l : List α} :
    l.forM f = .ok () ↔ ∀ a ∈ l, f a = .ok () := by
  induction l with
  | nil => exact iff_of_true rfl nofun
  | cons a l ih =>
    rw [List.forM, check_then_eq_ok_iff, List.forall_mem_cons, ← ih]

/-- The fault of going through a list is that of one of its items. -/
theorem exists_of_mapM_eq_error {f : α → Except ε β} {l : List α} {e : ε}
    (h : l.mapM f = .error e) : ∃ a ∈ l, f a = .error e := by
  induction l with
  | nil => cases h
  | cons a l ih =>
    rw [List.mapM_cons] at h
    rcases ha : f a with e' | b
    · rw [ha] at h
      cases h
      exact ⟨a, List.mem_cons_self, ha⟩
    · rcases hl : l.mapM f with e' | bs
      · rw [ha, hl] at h
        cases h
        obtain ⟨x, hx, hfx⟩ := ih hl
        exact ⟨x, List.mem_cons_of_mem _ hx, hfx⟩
      · rw [ha, hl] at h
        cases h

/-- Each value of going through a list is that of one of its items. -/
theorem exists_of_mem_of_mapM_eq_ok {f : α → Except ε β} {l : List α} {bs : List β} {b : β}
    (h : l.mapM f = .ok bs) (hb : b ∈ bs) : ∃ a ∈ l, f a = .ok b := by
  induction l generalizing bs with
  | nil =>
    obtain rfl := Except.ok.inj h
    exact absurd hb List.not_mem_nil
  | cons a l ih =>
    rw [List.mapM_cons] at h
    obtain ⟨first, hfirst, h⟩ := bind_eq_ok.1 h
    obtain ⟨rest, hrest, h⟩ := bind_eq_ok.1 h
    obtain rfl := Except.ok.inj h
    rcases List.mem_cons.1 hb with rfl | hb
    · exact ⟨a, List.mem_cons_self, hfirst⟩
    · obtain ⟨x, hx, hfx⟩ := ih hrest hb
      exact ⟨x, List.mem_cons_of_mem a hx, hfx⟩

/-! ## Searching a list -/

/-- The answer of the first item that has one. -/
def firstSome (answer : α → Except ε (Option β)) : List α → Except ε (Option β)
  | [] => .ok none
  | a :: rest => do
    if let some b ← answer a then return some b
    firstSome answer rest

variable {answer : α → Except ε (Option β)}

theorem firstSome_cons_of_none {a : α} (h : answer a = .ok none) (rest : List α) :
    firstSome answer (a :: rest) = firstSome answer rest := by
  rw [firstSome, h]
  rfl

theorem firstSome_cons_of_some {a : α} {b : β} (h : answer a = .ok (some b)) (rest : List α) :
    firstSome answer (a :: rest) = .ok (some b) := by
  rw [firstSome, h]
  rfl

theorem firstSome_cons_of_error {a : α} {e : ε} (h : answer a = .error e) (rest : List α) :
    firstSome answer (a :: rest) = .error e := by
  rw [firstSome, h]
  rfl

/-- Whatever else than no answer an item gives, the search ends with it. -/
theorem firstSome_cons_of_ne {a : α} (h : answer a ≠ .ok none) (rest : List α) :
    firstSome answer (a :: rest) = answer a := by
  rcases ha : answer a with e | (_ | b)
  · exact firstSome_cons_of_error ha rest
  · exact absurd ha h
  · exact firstSome_cons_of_some ha rest

/-- A search depends on the answers of its items alone. -/
theorem firstSome_congr {other : α → Except ε (Option β)} {items : List α}
    (hsame : ∀ a ∈ items, other a = answer a) : firstSome other items = firstSome answer items := by
  induction items with
  | nil => rfl
  | cons a rest ih =>
    obtain ⟨ha, hrest⟩ := List.forall_mem_cons.1 hsame
    rw [firstSome, firstSome, ha, ih hrest]

theorem firstSome_eq_none_iff {items : List α} :
    firstSome answer items = .ok none ↔ ∀ a ∈ items, answer a = .ok none := by
  induction items with
  | nil => simp [firstSome]
  | cons a rest ih =>
    rw [List.forall_mem_cons]
    rcases h : answer a with e | (_ | b)
    · simp [firstSome_cons_of_error h]
    · simp [firstSome_cons_of_none h, ih]
    · simp [firstSome_cons_of_some h]

/-- A list is cut at its first element or behind it. -/
theorem exists_cut_cons_iff {p : List α → α → Prop} {a : α} {as : List α} :
    (∃ before b after, a :: as = before ++ b :: after ∧ p before b) ↔
      p [] a ∨ ∃ before b after, as = before ++ b :: after ∧ p (a :: before) b := by
  constructor
  · rintro ⟨before, b, after, hcut, hp⟩
    cases before with
    | nil =>
      obtain ⟨rfl, rfl⟩ := List.cons.inj hcut
      exact .inl hp
    | cons first before =>
      obtain ⟨rfl, rfl⟩ := List.cons.inj hcut
      exact .inr ⟨before, b, after, rfl, hp⟩
  · rintro (hp | ⟨before, b, after, rfl, hp⟩)
    · exact ⟨[], a, as, rfl, hp⟩
    · exact ⟨a :: before, b, after, rfl, hp⟩

/-- The items up to the first one at which a condition holds, none of the items before it having an
answer. -/
def ReachedBy (answer : α → Except ε (Option β)) (items : List α) (a : α) : Prop :=
  ∃ before after, items = before ++ a :: after ∧ ∀ b ∈ before, answer b = .ok none

/-- A search ends, unless it finds nothing, as an item does before which no item has an answer. -/
theorem firstSome_eq_iff {items : List α} {r : Except ε (Option β)} (hr : r ≠ .ok none) :
    firstSome answer items = r ↔ ∃ a, ReachedBy answer items a ∧ answer a = r := by
  induction items with
  | nil =>
    refine iff_of_false (Ne.symm hr) ?_
    rintro ⟨a, ⟨before, after, hitems, -⟩, -⟩
    simp at hitems
  | cons a rest ih =>
    constructor
    · intro hsearch
      by_cases ha : answer a = .ok none
      · rw [firstSome_cons_of_none ha] at hsearch
        obtain ⟨x, ⟨before, after, rfl, hbefore⟩, hx⟩ := ih.1 hsearch
        exact ⟨x, ⟨a :: before, after, rfl, List.forall_mem_cons.2 ⟨ha, hbefore⟩⟩, hx⟩
      · exact ⟨a, ⟨[], rest, rfl, nofun⟩, (firstSome_cons_of_ne ha rest).symm.trans hsearch⟩
    · rintro ⟨x, ⟨before, after, hitems, hbefore⟩, rfl⟩
      cases before with
      | nil =>
        obtain ⟨rfl, rfl⟩ := List.cons.inj hitems
        exact firstSome_cons_of_ne hr rest
      | cons b before =>
        obtain ⟨rfl, rfl⟩ := List.cons.inj hitems
        obtain ⟨ha, hbefore⟩ := List.forall_mem_cons.1 hbefore
        rw [firstSome_cons_of_none ha]
        exact ih.2 ⟨x, ⟨before, after, rfl, hbefore⟩, rfl⟩

theorem firstSome_eq_some_iff {items : List α} {b : β} :
    firstSome answer items = .ok (some b) ↔
      ∃ a, ReachedBy answer items a ∧ answer a = .ok (some b) :=
  firstSome_eq_iff nofun

/-- A search fails at an item before which no item has an answer. -/
theorem fails_firstSome_iff {items : List α} :
    Fails (firstSome answer items) ↔ ∃ a, ReachedBy answer items a ∧ Fails (answer a) := by
  have hends : ∀ e, firstSome answer items = .error e ↔
      ∃ a, ReachedBy answer items a ∧ answer a = .error e := fun _ => firstSome_eq_iff nofun
  simp only [Fails, hends]
  constructor
  · rintro ⟨e, a, hreached, ha⟩
    exact ⟨a, hreached, e, ha⟩
  · rintro ⟨a, hreached, e, ha⟩
    exact ⟨e, a, hreached, ha⟩

/-! ## Runs -/

namespace Run

variable {s : Cargo.Script}

/-- The run ends with a fault. -/
def Faults (x : Run ε α) (s : Cargo.Script) : Prop :=
  Fails (x s).value

@[simp] theorem not_faults_pure (a : α) : ¬ (pure a : Run ε α).Faults s :=
  not_fails_ok a

@[simp] theorem faults_fail (e : ε) : (fail e : Run ε α).Faults s :=
  fails_error e

@[simp] theorem faults_ofExcept {r : Except ε α} : (ofExcept r).Faults s ↔ Fails r := by
  rw [Faults, ofExcept_apply]

theorem faults_bind {x : Run ε α} {f : α → Run ε β} :
    (x >>= f).Faults s ↔
      x.Faults s ∨ ∃ a, (x s).value = .ok a ∧ (f a).Faults (x s).script := by
  cases h : (x s).value with
  | error e =>
    rw [Faults, bind_of_error h, Faults, h]
    simp [fails_error]
  | ok a =>
    rw [Faults, bind_of_ok h, Faults, h]
    simp [not_fails_ok, Faults]

theorem faults_bind_of_ok {x : Run ε α} {a : α} (h : (x s).value = .ok a) {f : α → Run ε β} :
    (x >>= f).Faults s ↔ (f a).Faults (x s).script := by
  rw [faults_bind, Faults, h]
  simp [not_fails_ok]

theorem faults_bind_of_not_faults {x : Run ε α} {f : α → Run ε β}
    (h : ∀ a t, ¬ (f a).Faults t) : (x >>= f).Faults s ↔ x.Faults s := by
  rw [faults_bind]
  exact or_iff_left fun ⟨a, _, ha⟩ => h a _ ha

/-- Going on with a value that is there already, or with a fault. -/
theorem faults_ofExcept_bind {r : Except ε α} {f : α → Run ε β} :
    (ofExcept r >>= f).Faults s ↔ Fails r ∨ ∃ a, r = .ok a ∧ (f a).Faults s := by
  rw [faults_bind, faults_ofExcept, ofExcept_apply]

end Run

end ProjectAudit
