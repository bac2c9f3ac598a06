import ProjectAudit.Proofs.Run.Laws
import Mathlib.Logic.Basic

/-!
# The replies that a run depends on

A script holds replies to every subcommand, and a run asks for some of them.  The footprint of a run
is a list of subcommands outside of which the script is of no account: two scripts that agree on
the footprint give one value and the same events, and what is pending for other subcommands is
still pending when the run has ended.

Both halves are needed to put runs after one another.  The first says that a run does not see what
another one did to the rest of the script, and the second that it does nothing to that rest itself.

* `Cargo.Script.replyAt`: the replies to a subcommand, by the number of the call.
* `Run.Within`: the footprint of a run, with one law for each way of building a run.
* `Run.within_call`, `Run.Within.bind`: a call has its subcommand for a footprint, and a sequence of
  runs has a footprint that all of them have.
-/

namespace ProjectAudit

namespace Cargo.Script

/-- Two scripts hold the same replies to the given subcommands. -/
def AgreeOn (own : List Text) (s t : Script) : Prop :=
  ∀ sub ∈ own, s.pending sub = t.pending sub

theorem AgreeOn.refl (own : List Text) (s : Script) : s.AgreeOn own s :=
  fun _ _ => rfl

/-- A call of a subcommand uses up one of its replies. -/
theorem pending_advance_self (s : Script) (a : Text) :
    (s.advance a).pending a = afterReply (s.pending a) := by
  induction s with
  | nil => rfl
  | cons e s ih =>
    simp only [advance, pending, List.map_cons, List.find?_cons] at ih ⊢
    by_cases he : e.1 = a
    · simp [he]
    · have he' : (e.1 == a) = false := by simp [he]
      simpa [he, he'] using ih

/-- The reply to the call of a subcommand before which there are a number of others: the calls take
one reply after the other, and the last one stays. -/
def replyAt (s : Script) (sub : Text) (n : Nat) : Reply :=
  ((s.pending sub)[n]?.or (s.pending sub).getLast?).getD (.finished {})

theorem replyAt_zero (s : Script) (sub : Text) : s.replyAt sub 0 = s.reply sub := by
  rw [replyAt, reply]
  cases s.pending sub <;> rfl

theorem replyAt_succ (s : Script) (sub : Text) (n : Nat) :
    s.replyAt sub (n + 1) = (s.advance sub).replyAt sub n := by
  rw [replyAt, replyAt, pending_advance_self]
  rcases s.pending sub with _ | ⟨a, _ | ⟨b, replies⟩⟩
  · rfl
  · cases n <;> rfl
  · rw [afterReply, List.getElem?_cons_succ, List.getLast?_cons_cons]

/-- What is said of the first replies is said of the next one, and then of those after it. -/
theorem forall_replyAt_succ {s : Script} {sub : Text} {P : Reply → Prop} {n : Nat} :
    (∀ i < n + 1, P (s.replyAt sub i)) ↔
      P (s.reply sub) ∧ ∀ i < n, P ((s.advance sub).replyAt sub i) := by
  simp only [Nat.forall_lt_succ_left, replyAt_zero, replyAt_succ]

theorem AgreeOn.reply_eq {own : List Text} {s t : Script} {a : Text} (h : s.AgreeOn own t)
    (ha : a ∈ own) : s.reply a = t.reply a := by
  rw [reply, reply, h a ha]

theorem AgreeOn.advance {own : List Text} {s t : Script} (h : s.AgreeOn own t) (a : Text) :
    (s.advance a).AgreeOn own (t.advance a) := by
  intro sub hmem
  by_cases hs : sub = a
  · subst hs
    rw [pending_advance_self, pending_advance_self, h sub hmem]
  · rw [pending_advance_of_ne (Ne.symm hs), pending_advance_of_ne (Ne.symm hs), h sub hmem]

end Cargo.Script

namespace Run

variable {ε δ α β : Type} {own : List Text}

/-- A run depends on, and changes, no replies but those to the given subcommands. -/
structure Within (own : List Text) (x : Run ε α) : Prop where
  value_eq : ∀ {s t : Cargo.Script}, s.AgreeOn own t → (x s).value = (x t).value
  events_eq : ∀ {s t : Cargo.Script}, s.AgreeOn own t → (x s).events = (x t).events
  agreeOn : ∀ {s t : Cargo.Script}, s.AgreeOn own t → (x s).script.AgreeOn own (x t).script
  pending_eq : ∀ (s : Cargo.Script) {sub : Text}, sub ∉ own →
    (x s).script.pending sub = s.pending sub

/-! ## Steps that ask for nothing -/

theorem within_pure (a : α) : Within own (pure a : Run ε α) :=
  ⟨fun _ => rfl, fun _ => rfl, fun h => h, fun _ _ _ => rfl⟩

theorem within_fail (e : ε) : Within own (fail e : Run ε α) :=
  ⟨fun _ => rfl, fun _ => rfl, fun h => h, fun _ _ _ => rfl⟩

theorem within_emit (e : Event) : Within own (emit e : Run ε Unit) :=
  ⟨fun _ => rfl, fun _ => rfl, fun h => h, fun _ _ _ => rfl⟩

/-! ## Calls, and runs put together -/

theorem within_call (t : Cargo.Toolchain) (h : Host) {sub : Text} (hsub : sub ∈ own)
    (manifest : Path) (more : List Text) (settings : List (Text × Text)) :
    Within own (t.call h sub manifest more settings) where
  value_eq hst := by
    rw [Cargo.Toolchain.call_apply, Cargo.Toolchain.call_apply, hst.reply_eq hsub]
    cases t.handed h sub manifest more settings <;> rfl
  events_eq hst := by
    rw [Cargo.Toolchain.call_apply, Cargo.Toolchain.call_apply, hst.reply_eq hsub]
    cases t.handed h sub manifest more settings <;> rfl
  agreeOn {s s'} hst := by
    rw [t.script_call, t.script_call]
    exact hst.advance sub
  pending_eq s other hother := by
    rw [t.script_call]
    exact Cargo.Script.pending_advance_of_ne (ne_of_mem_of_not_mem hsub hother) s

theorem Within.bind {x : Run ε α} {f : α → Run ε β} (hx : Within own x)
    (hf : ∀ a, Within own (f a)) : Within own (x >>= f) where
  value_eq {s t} hst := by
    rw [bind_apply, bind_apply, hx.value_eq hst]
    cases (x t).value with
    | error e => rfl
    | ok a => exact (hf a).value_eq (hx.agreeOn hst)
  events_eq {s t} hst := by
    rw [bind_apply, bind_apply, hx.value_eq hst]
    cases (x t).value with
    | error e => exact hx.events_eq hst
    | ok a =>
      show (x s).events ++ _ = (x t).events ++ _
      rw [hx.events_eq hst, (hf a).events_eq (hx.agreeOn hst)]
  agreeOn {s t} hst := by
    rw [bind_apply, bind_apply, hx.value_eq hst]
    cases (x t).value with
    | error e => exact hx.agreeOn hst
    | ok a => exact (hf a).agreeOn (hx.agreeOn hst)
  pending_eq s sub hother := by
    rw [bind_apply]
    cases (x s).value with
    | error e => exact hx.pending_eq s hother
    | ok a => exact ((hf a).pending_eq _ hother).trans (hx.pending_eq s hother)

theorem Within.attempt {x : Run ε α} (hx : Within own x) :
    Within own (attempt x : Run δ (Except ε α)) where
  value_eq hst := congrArg Except.ok (hx.value_eq hst)
  events_eq hst := hx.events_eq hst
  agreeOn hst := hx.agreeOn hst
  pending_eq s _ hother := hx.pending_eq s hother

end Run

end ProjectAudit
