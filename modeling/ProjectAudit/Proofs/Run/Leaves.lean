import ProjectAudit.Audit.Context
import ProjectAudit.Proofs.Run.Laws

/-!
# What runs leave

Most of what is said about the events of a run is said of each of them: that none is text of the
report, or that none starts a process but certain ones.  A run leaves what its steps leave, so
whatever is said of each event holds of a run if it holds of its steps, and there is one law for
each way of building a run.

* `Run.Leaves`: the runs whose events all satisfy a condition.
* `Run.Leaves.bind_of_value`: what a sequence leaves.
* `Context.note_ending`, `Context.noteThen_ending`: a note comes to nothing, and takes no reply.
-/

namespace ProjectAudit

/-- The subcommand of a process, which follows the command. -/
def Call.subcommand? (call : Call) : Option Text :=
  call.arguments[1]?

namespace Run

variable {ε δ α β : Type} {P : Event → Prop}

/-- All events that a run leaves satisfy a condition. -/
def Leaves (P : Event → Prop) (x : Run ε α) : Prop :=
  ∀ s : Cargo.Script, ∀ e ∈ (x s).events, P e

theorem Leaves.mono {Q : Event → Prop} {x : Run ε α} (hx : Leaves P x) (h : ∀ e, P e → Q e) :
    Leaves Q x :=
  fun s e hmem => h e (hx s e hmem)

theorem leaves_pure (a : α) : Leaves P (pure a : Run ε α) :=
  fun _ _ hmem => absurd hmem List.not_mem_nil

theorem leaves_fail (e : ε) : Leaves P (fail e : Run ε α) :=
  fun _ _ hmem => absurd hmem List.not_mem_nil

theorem leaves_ofExcept (r : Except ε α) : Leaves P (ofExcept r) := by
  cases r with
  | ok a => exact leaves_pure a
  | error e => exact leaves_fail e

theorem leaves_emit {e : Event} (he : P e) : Leaves P (emit e : Run ε Unit) := by
  intro s e' hmem
  obtain rfl := List.mem_singleton.1 hmem
  exact he

/-- A note is written only if notes are wished for. -/
theorem leaves_note (c : Context) (message : Text)
    (hnote : c.verbose = true → ∀ text, P (.note text)) :
    Leaves P (c.note message : Run ε Unit) := by
  rw [Context.note]
  split
  · exact leaves_emit (hnote ‹_› _)
  · exact leaves_pure ()

/-- A call leaves a process of its subcommand, and log records. -/
theorem leaves_call (t : Cargo.Toolchain) (h : Host) (sub : Text) (manifest : Path)
    (more : List Text) (settings : List (Text × Text)) (hlogged : ∀ r, P (.logged r))
    (hstarted : ∀ call : Call, call.subcommand? = some sub → P (.started call)) :
    Leaves P (t.call h sub manifest more settings) := by
  intro s e hmem
  have hopening : ∀ e ∈ t.opening h sub manifest more settings, P e :=
    List.forall_mem_cons.2 ⟨hlogged _, List.forall_mem_singleton.2 (hstarted _ rfl)⟩
  rw [Cargo.Toolchain.call_apply] at hmem
  cases hhanded : t.handed h sub manifest more settings with
  | error fault =>
    rw [hhanded] at hmem
    exact hopening e hmem
  | ok _ =>
    rw [hhanded] at hmem
    rcases List.mem_append.1 hmem with hmem | hmem
    · exact hopening e hmem
    · cases hreply : s.reply sub with
      | notStarted reason =>
        rw [hreply] at hmem
        exact absurd hmem List.not_mem_nil
      | finished response =>
        rw [hreply] at hmem
        obtain rfl := List.mem_singleton.1 hmem
        exact hlogged _

theorem Leaves.attempt {x : Run ε α} (hx : Leaves P x) :
    Leaves P (attempt x : Run δ (Except ε α)) :=
  hx

/-- A caller leaves what its call leaves. -/
theorem leaves_attemptCall (unexpected : Cargo.StartFault → ε) (t : Cargo.Toolchain) (h : Host)
    (sub : Text) (manifest : Path) (more : List Text) (settings : List (Text × Text))
    (hlogged : ∀ r, P (.logged r))
    (hstarted : ∀ call : Call, call.subcommand? = some sub → P (.started call)) :
    Leaves P (Cargo.attemptCall unexpected (t.call h sub manifest more settings)) := by
  intro s e hmem
  rw [Cargo.attemptCall_apply] at hmem
  exact leaves_call t h sub manifest more settings hlogged hstarted s e hmem

/-- **What a sequence leaves** is what its parts leave; of the second part only those runs matter
that the first part can lead to. -/
theorem Leaves.bind_of_value {x : Run ε α} {f : α → Run ε β} (hx : Leaves P x)
    (hf : ∀ s a, (x s).value = .ok a → Leaves P (f a)) : Leaves P (x >>= f) := by
  intro s e hmem
  rcases mem_events_of_bind hmem with hfirst | ⟨a, hvalue, hsecond⟩
  · exact hx s e hfirst
  · exact hf s a hvalue _ e hsecond

theorem Leaves.bind {x : Run ε α} {f : α → Run ε β} (hx : Leaves P x)
    (hf : ∀ a, Leaves P (f a)) : Leaves P (x >>= f) :=
  hx.bind_of_value fun _ a _ => hf a

end Run

namespace Context

variable {ε α : Type} (c : Context) (message : Text) (s : Cargo.Script)

theorem note_ending :
    ((c.note message : Run ε Unit) s).value = .ok () ∧
      ((c.note message : Run ε Unit) s).script = s := by
  rw [note]
  cases c.verbose with
  | false => exact ⟨rfl, rfl⟩
  | true => exact ⟨rfl, rfl⟩

/-- A note, and an end. -/
theorem noteThen_ending (a : α) :
    ((do c.note message; pure a : Run ε α) s).value = .ok a ∧
      ((do c.note message; pure a : Run ε α) s).script = s := by
  obtain ⟨hvalue, hscript⟩ := c.note_ending (ε := ε) message s
  rw [Run.bind_of_ok hvalue]
  exact ⟨rfl, hscript⟩

/-- The note is left, if more detail is wished for. -/
theorem events_noteThen (a : α) :
    ((do c.note message; pure a : Run ε α) s).events =
      if c.verbose then [.note (message ++ "\n")] else [] := by
  rw [note]
  cases c.verbose with
  | false => rfl
  | true => rfl

/-- A note starts no process. -/
theorem calls_noteThen (a : α) :
    Event.calls ((do c.note message; pure a : Run ε α) s).events = [] := by
  rw [note]
  cases c.verbose with
  | false => rfl
  | true => rfl

/-- A note, and an end, behind a run that ended with a value. -/
theorem bind_noteThen {β : Type} {x : Run ε β} {f : β → Run ε α} {b : β} {message : Text} {a : α}
    {s : Cargo.Script} (hvalue : (x s).value = .ok b) (hf : f b = do c.note message; pure a) :
    let ending := (x >>= f) s
    Event.calls ending.events = Event.calls (x s).events ∧ ending.value = .ok a := by
  rw [Run.bind_of_ok hvalue, hf]
  dsimp only
  rw [Event.calls_append, c.calls_noteThen, List.append_nil]
  exact ⟨rfl, (c.noteThen_ending message _ a).1⟩

end Context

end ProjectAudit
