import ProjectAudit.Proofs.Run.Stepwise

/-!
# The subcommands that a run calls

A footprint bounds the replies that a run takes.  Here it is the processes that are bounded: each
call of the tool names a subcommand, and a run calls no others than those it is said to call.

The bound is on what a run leaves, whatever the tool replies and however the run ends, so it can be
read off the list of processes when the run is over.

Of one call all is known: it takes one reply and starts one process, or tries to, with a guard that
the call, the toolchain or the host sets.

* `Run.CallsOnly`: the runs that call the given subcommands only.
* `Stepwise.callsOnly`: a run made of the steps of rules calls the subcommands of its steps.
* `Cargo.Toolchain.calls_call`: each call starts one process, and what its guard is.
-/

namespace ProjectAudit

/-- An event that starts a process is the call of one of the given subcommands. -/
def Event.CallsOnly (own : List Text) (e : Event) : Prop :=
  ∀ call, e = .started call → ∃ sub ∈ own, call.subcommand? = some sub

namespace Event

variable {own : List Text}

theorem callsOnly_report (text : Text) : (report text).CallsOnly own :=
  fun _ h => by cases h

theorem callsOnly_note (text : Text) : (note text).CallsOnly own :=
  fun _ h => by cases h

theorem callsOnly_logged (record : LogRecord) : (logged record).CallsOnly own :=
  fun _ h => by cases h

theorem callsOnly_started {call : Call} (h : ∃ sub ∈ own, call.subcommand? = some sub) :
    (started call).CallsOnly own := by
  rintro _ ⟨⟩
  exact h

end Event

namespace Run

variable {ε α : Type} {own : List Text}

/-- A run calls the given subcommands only. -/
def CallsOnly (own : List Text) (x : Run ε α) : Prop :=
  Leaves (Event.CallsOnly own) x

/-- A run that calls few subcommands calls no others than a longer list has. -/
theorem CallsOnly.of_subset {own' : List Text} {x : Run ε α} (hx : CallsOnly own x)
    (hsub : own ⊆ own') : CallsOnly own' x :=
  hx.mono fun _ he call hcall => (he call hcall).imp fun _ h => ⟨hsub h.1, h.2⟩

/-- The processes that such a run starts. -/
theorem CallsOnly.of_mem_calls {x : Run ε α} (hx : CallsOnly own x) {s : Cargo.Script} {call : Call}
    (hcall : call ∈ Event.calls (x s).events) : ∃ sub ∈ own, call.subcommand? = some sub := by
  obtain ⟨e, hmem, he⟩ := List.mem_filterMap.1 hcall
  cases e with
  | started started =>
    obtain rfl := Option.some.inj he
    exact hx s _ hmem _ rfl
  | _ => cases he

/-- A run that calls no subcommands starts no process. -/
theorem CallsOnly.calls_eq_nil {x : Run ε α} (hx : CallsOnly [] x) (s : Cargo.Script) :
    Event.calls (x s).events = [] := by
  refine List.eq_nil_iff_forall_not_mem.2 fun call hcall => ?_
  obtain ⟨sub, hmem, -⟩ := hx.of_mem_calls hcall
  exact List.not_mem_nil hmem

/-- **A run made of steps** calls the subcommands of its steps. -/
theorem Stepwise.callsOnly {x : Bool → Run ε α} (h : Stepwise own x) (verbose : Bool) :
    CallsOnly own (x verbose) :=
  h.leaves verbose Event.callsOnly_logged (fun _ => Event.callsOnly_note) fun _ =>
    Event.callsOnly_started

end Run

/-! ## One call -/

namespace Cargo.Toolchain

variable (t : Toolchain) (h : Host) (manifest : Path) (s : Script)

/-- The value that a toolchain adds for a variable. -/
def addition? (name : Text) : Option Text :=
  (t.additions.find? fun v => v.1 == name).map (·.2)

/-- The guard that the process of a call is handed: that of the call, else that of the toolchain,
else that of the host. -/
theorem environmentValue?_hostOfCall (settings : List (Text × Text)) (name : Text) :
    (t.hostOfCall h settings).environmentValue? name =
      ((settings.find? fun v => v.1 == name).map (·.2)).or
        ((t.addition? name).or (h.environmentValue? name)) := by
  simp only [Host.environmentValue?, hostOfCall, environment, addition?, List.find?_append,
    Option.map_or, Option.or_assoc]

/-- **A call starts one process**, which is handed the guard of its environment. -/
theorem calls_call (sub : Text) (more : List Text) (settings : List (Text × Text)) :
    Event.calls (t.call h sub manifest more settings s).events =
      [⟨t.arguments sub manifest more,
        (t.hostOfCall h settings).environmentValue? recursionGuard⟩] := by
  rw [call_apply]
  cases t.handed h sub manifest more settings with
  | error fault => rfl
  | ok _ => cases s.reply sub <;> rfl

/-- A call that sets no variables hands on what there is. -/
theorem calls_call_nil (sub : Text) (more : List Text) :
    Event.calls (t.call h sub manifest more [] s).events =
      [⟨t.arguments sub manifest more,
        (t.addition? recursionGuard).or (h.environmentValue? recursionGuard)⟩] := by
  rw [calls_call, environmentValue?_hostOfCall]
  rfl

/-- The tests are handed the guard, whatever the toolchain and the host have in its place. -/
theorem calls_test :
    Event.calls (t.test h manifest s).events =
      [⟨t.arguments "test" manifest [], some "true"⟩] := by
  rw [test, calls_call, environmentValue?_hostOfCall]
  simp

end Cargo.Toolchain

end ProjectAudit
