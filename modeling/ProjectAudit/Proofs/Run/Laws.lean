import ProjectAudit.Cargo.Toolchain

/-!
# Equations of runs

What a sequence of runs comes to, in the two ways in which proofs need it: as an equation, when the
end of the first run is known, and as an equivalence that takes the end of the sequence apart.

`Cargo.Toolchain.call_apply` says once what a call is: one reply is taken, one process is recorded,
and a process that could not be started logs no exit code.  `Cargo.attemptCall_apply` says what its
callers get of it.
-/

namespace ProjectAudit

namespace Run

variable {ε δ α β : Type}

@[simp] theorem ofExcept_apply (r : Except ε α) (s : Cargo.Script) :
    ofExcept r s = ⟨r, s, []⟩ := by
  cases r <;> rfl

@[simp] theorem attempt_apply (x : Run ε α) (s : Cargo.Script) :
    (attempt x : Run δ (Except ε α)) s = ⟨.ok (x s).value, (x s).script, (x s).events⟩ := rfl

theorem bind_of_ok {x : Run ε α} {s : Cargo.Script} {a : α} (h : (x s).value = .ok a)
    (f : α → Run ε β) :
    (x >>= f) s = ⟨(f a (x s).script).value, (f a (x s).script).script,
      (x s).events ++ (f a (x s).script).events⟩ := by
  rw [bind_apply, h]

theorem bind_of_error {x : Run ε α} {s : Cargo.Script} {e : ε} (h : (x s).value = .error e)
    (f : α → Run ε β) : (x >>= f) s = ⟨.error e, (x s).script, (x s).events⟩ := by
  rw [bind_apply, h]

theorem attempt_bind_apply (x : Run δ α) (f : Except δ α → Run ε β) (s : Cargo.Script) :
    (attempt x >>= f) s =
      ⟨(f (x s).value (x s).script).value, (f (x s).value (x s).script).script,
        (x s).events ++ (f (x s).value (x s).script).events⟩ := rfl

theorem value_bind_eq_ok {x : Run ε α} {f : α → Run ε β} {s : Cargo.Script} {b : β} :
    ((x >>= f) s).value = .ok b ↔
      ∃ a, (x s).value = .ok a ∧ (f a (x s).script).value = .ok b := by
  cases h : (x s).value with
  | ok a => simp [bind_of_ok h]
  | error e => simp [bind_of_error h]

/-- A sequence ends with the fault of its first part, or with that of its second part on the value
of the first one. -/
theorem value_bind_eq_error {x : Run ε α} {f : α → Run ε β} {s : Cargo.Script} {e : ε} :
    ((x >>= f) s).value = .error e ↔
      (x s).value = .error e ∨
        ∃ a, (x s).value = .ok a ∧ (f a (x s).script).value = .error e := by
  cases h : (x s).value with
  | ok a => simp [bind_of_ok h]
  | error e => simp [bind_of_error h]

/-- What a sequence leaves is left by its first part, or by its second part on the value of the
first one. -/
theorem mem_events_of_bind {x : Run ε α} {f : α → Run ε β} {s : Cargo.Script} {e : Event}
    (h : e ∈ ((x >>= f) s).events) :
    e ∈ (x s).events ∨ ∃ a, (x s).value = .ok a ∧ e ∈ (f a (x s).script).events := by
  cases hvalue : (x s).value with
  | error fault =>
    rw [bind_of_error hvalue] at h
    exact .inl h
  | ok a =>
    rw [bind_of_ok hvalue] at h
    exact (List.mem_append.1 h).imp_right fun hsecond => ⟨a, rfl, hsecond⟩

/-- A value that is there already is handed on. -/
protected theorem pure_bind (a : α) (f : α → Run ε β) : pure a >>= f = f a :=
  rfl

/-- To hand a value on and do nothing else changes nothing. -/
protected theorem bind_pure (x : Run ε α) : x >>= pure = x := by
  funext s
  rw [bind_apply]
  rcases x s with ⟨e | a, script, events⟩
  · rfl
  · exact congrArg (Ending.mk _ _) (List.append_nil events)

/-- Which of the steps are put together first is of no account. -/
protected theorem bind_assoc {γ : Type} (x : Run ε α) (f : α → Run ε β) (g : β → Run ε γ) :
    x >>= f >>= g = x >>= fun a => f a >>= g := by
  funext s
  simp only [bind_apply]
  cases (x s).value with
  | error e => rfl
  | ok a =>
    cases h : (f a (x s).script).value with
    | error e => simp [h]
    | ok b => simp [h]

end Run

namespace Cargo.Toolchain

/-- The record of a process that is about to be started. -/
def startRecord (arguments : List Text) : LogRecord :=
  ⟨.debug, .toolchain, "Running " ++ Text.joined " " arguments⟩

/-- The record of a process that has ended. -/
def endRecord (arguments : List Text) (response : Response) : LogRecord :=
  ⟨.debug, .toolchain, Text.joined " " arguments ++ " exited with " ++ Text.ofInt response.exitCode⟩

/-- What becomes of a call on which the tool replies. -/
def replied (arguments : List Text) : Reply → Except InvocationError Output
  | .notStarted reason => .error { arguments, reason }
  | .finished response => .ok { arguments, response }

/-- What the log says of a call that was handed over, after its start. -/
def closing (arguments : List Text) : Reply → List Event
  | .notStarted _ => []
  | .finished response => [.logged (endRecord arguments response)]

variable (t : Toolchain) (h : Host) (sub : Text) (manifest : Path) (more : List Text)
  (settings : List (Text × Text)) (s : Script)

/-- What a call leaves, up to its reply. -/
def opening : List Event :=
  let arguments := t.arguments sub manifest more
  [.logged (startRecord arguments),
    .started ⟨arguments, (t.hostOfCall h settings).environmentValue? recursionGuard⟩]

/-- Whether the call can be handed over to the system. -/
def handed : Except StartFault Unit :=
  handOver (t.entries h settings) (t.arguments sub manifest more)

theorem call_apply :
    t.call h sub manifest more settings s =
      let arguments := t.arguments sub manifest more
      match t.handed h sub manifest more settings with
      | .ok _ =>
        ⟨(replied arguments (s.reply sub)).mapError .notStarted, s.advance sub,
          t.opening h sub manifest more settings ++ closing arguments (s.reply sub)⟩
      | .error fault =>
        ⟨.error (.notHandedOver arguments fault), s.advance sub,
          t.opening h sub manifest more settings⟩ := by
  have htake : (Run.takeReply sub : Run CallFault Reply) s =
      ⟨.ok (s.reply sub), s.advance sub, []⟩ := rfl
  simp only [call, Run.log, Run.bind_apply, Run.emit_apply, htake, handed]
  cases handOver (t.entries h settings) (t.arguments sub manifest more) with
  | error fault => rfl
  | ok _ => cases s.reply sub <;> rfl

/-- A call takes a reply, even if it cannot be handed over. -/
theorem script_call : (t.call h sub manifest more settings s).script = s.advance sub := by
  rw [call_apply]
  cases t.handed h sub manifest more settings <;> rfl

end Cargo.Toolchain

namespace Cargo

variable {ε : Type} (unexpected : StartFault → ε) (t : Toolchain) (h : Host) (sub : Text)
  (manifest : Path) (more : List Text) (settings : List (Text × Text)) (s : Script)

/-- **What a caller gets of a call**: the call as it was replied to, or a fault of its own. -/
theorem attemptCall_apply :
    attemptCall unexpected (t.call h sub manifest more settings) s =
      let ending := t.call h sub manifest more settings s
      ⟨((t.handed h sub manifest more settings).mapError unexpected).map fun _ =>
          Toolchain.replied (t.arguments sub manifest more) (s.reply sub),
        ending.script, ending.events⟩ := by
  rw [attemptCall, Run.attempt_bind_apply, Toolchain.call_apply]
  cases t.handed h sub manifest more settings with
  | error fault => exact congrArg (Ending.mk _ _) (List.append_nil _)
  | ok _ => cases s.reply sub <;> exact congrArg (Ending.mk _ _) (List.append_nil _)

end Cargo

end ProjectAudit
