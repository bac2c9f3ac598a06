import ProjectAudit.Proofs.Run.Beside
import ProjectAudit.Proofs.Run.Footprint
import ProjectAudit.Rules.Fault

/-!
# Runs made of steps that rules take

Rules differ in what they look at, but all of them are put together from a few steps: they end, they
write a note, they call the tool, and they go on with what a step came to.  `Stepwise` says that a
run is put together in this way, and since the wish for more detail is the one part of a context
that changes no decision, it says so of a family of runs, one for each answer to that wish: the
steps are the same, but for the notes.

What holds of each step and is kept when steps follow one another then holds of every rule, without
a second look at any of them.

* `Stepwise.within`: the subcommands that are called are a footprint.
* `Stepwise.leaves`: the events that rules leave.
* `Stepwise.beside`: a rule writes nothing to the report, and no notes unless asked for them.
* `Stepwise.logsBelow`: what a rule logs by itself is for debugging.
-/

namespace ProjectAudit

/-- The same context with another answer to the wish for more detail. -/
def Context.withVerbose (c : Context) (verbose : Bool) : Context :=
  { c with verbose }

namespace Context

variable (c : Context) (verbose : Bool)

theorem withVerbose_self : c.withVerbose c.verbose = c := rfl

@[simp] theorem manifest_withVerbose : (c.withVerbose verbose).manifest = c.manifest := rfl

@[simp] theorem toolchain_withVerbose : (c.withVerbose verbose).toolchain = c.toolchain := rfl

@[simp] theorem host_withVerbose : (c.withVerbose verbose).host = c.host := rfl

@[simp] theorem projectDirectory_withVerbose :
    (c.withVerbose verbose).projectDirectory = c.projectDirectory := rfl

@[simp] theorem packages_withVerbose : (c.withVerbose verbose).packages = c.packages := rfl

@[simp] theorem workspaceDirectory?_withVerbose :
    (c.withVerbose verbose).workspaceDirectory? = c.workspaceDirectory? := rfl

@[simp] theorem settingsOf_withVerbose {α : Type} (id : Text) (read : Json → Checked α)
    (absent : α) : (c.withVerbose verbose).settingsOf id read absent =
      c.settingsOf id read absent := rfl

end Context

namespace Run

/-- A family of runs, one for each answer to the wish for more detail, that is put together from
notes and calls of the given subcommands. -/
inductive Stepwise (own : List Text) : {ε α : Type} → (Bool → Run ε α) → Prop
  | done {ε α : Type} (a : α) : Stepwise own fun _ => (pure a : Run ε α)
  | fail {ε α : Type} (e : ε) : Stepwise own fun _ => (fail e : Run ε α)
  | note {ε : Type} (c : Context) (message : Text) :
    Stepwise own fun verbose => ((c.withVerbose verbose).note message : Run ε Unit)
  | call (t : Cargo.Toolchain) (h : Host) {sub : Text} (hsub : sub ∈ own) (manifest : Path)
    (more : List Text) (settings : List (Text × Text)) :
    Stepwise own fun _ => t.call h sub manifest more settings
  | attempt {ε δ α : Type} {x : Bool → Run ε α} (hx : Stepwise own x) :
    Stepwise own fun verbose => (attempt (x verbose) : Run δ (Except ε α))
  | bind {ε α β : Type} {x : Bool → Run ε α} {f : Bool → α → Run ε β} (hx : Stepwise own x)
    (hf : ∀ a, Stepwise own fun verbose => f verbose a) :
    Stepwise own fun verbose => x verbose >>= f verbose

namespace Stepwise

variable {ε α : Type} {own : List Text}

theorem ofExcept (r : Except ε α) : Stepwise own fun _ => Run.ofExcept r := by
  cases r with
  | ok a => exact done a
  | error e => exact fail e

theorem ask (answer : Except PathFault α) : Stepwise own fun _ => Context.ask answer :=
  ofExcept _

theorem settingsOf (c : Context) (id : Text) (read : Json → Checked α) (absent : α) :
    Stepwise own fun _ => c.settingsOf id read absent :=
  ofExcept _

/-- A call of the tool, as rules make it. -/
theorem attemptCall (unexpected : Cargo.StartFault → ε) (t : Cargo.Toolchain) (h : Host)
    {sub : Text} (hsub : sub ∈ own) (manifest : Path) (more : List Text)
    (settings : List (Text × Text)) :
    Stepwise own fun _ =>
      Cargo.attemptCall unexpected (t.call h sub manifest more settings) := by
  refine (call t h hsub manifest more settings).attempt.bind fun value => ?_
  rcases value with (e | ⟨arguments, fault⟩) | output
  · exact done _
  · exact fail _
  · exact done _

/-- A choice that does not depend on the wish for more detail, though the way in which it is decided
may be written in terms of it. -/
theorem choose {p : Prop} {inst : Bool → Decidable p} {x y : Bool → Run ε α}
    (hx : p → Stepwise own x) (hy : ¬ p → Stepwise own y) :
    Stepwise own fun verbose => @ite (Run ε α) p (inst verbose) (x verbose) (y verbose) := by
  by_cases h : p
  · simpa only [if_pos h] using hx h
  · simpa only [if_neg h] using hy h

/-- A note, and an end. -/
theorem noteThen (c : Context) (message : Text) (a : α) :
    Stepwise own fun verbose =>
      (do (c.withVerbose verbose).note message; pure a : Run ε α) :=
  (note c message).bind fun _ => done a

/-! ## What holds of all of them -/

theorem within {x : Bool → Run ε α} (h : Stepwise own x) (verbose : Bool) :
    Within own (x verbose) := by
  induction h with
  | done a => exact within_pure a
  | fail e => exact within_fail e
  | note c message =>
    cases verbose with
    | false => exact within_pure ()
    | true => exact within_emit _
  | call t h hsub manifest more settings => exact within_call t h hsub manifest more settings
  | attempt _ ih => exact ih.attempt
  | bind _ _ ihx ihf => exact ihx.bind ihf

/-- **What rules leave**: log records, processes of their subcommands, and notes if notes are wished
for. -/
theorem leaves {P : Event → Prop} {x : Bool → Run ε α} (h : Stepwise own x) (verbose : Bool)
    (hlogged : ∀ r, P (.logged r)) (hnote : verbose = true → ∀ text, P (.note text))
    (hstarted : ∀ call : Call, (∃ sub ∈ own, call.subcommand? = some sub) → P (.started call)) :
    Leaves P (x verbose) := by
  induction h with
  | done a => exact leaves_pure a
  | fail e => exact leaves_fail e
  | note c message => exact leaves_note (c.withVerbose verbose) message hnote
  | call t h hsub manifest more settings =>
    exact leaves_call t h _ manifest more settings hlogged fun call hcall =>
      hstarted call ⟨_, hsub, hcall⟩
  | attempt _ ih => exact ih.attempt
  | bind _ _ ihx ihf => exact ihx.bind ihf

theorem beside {x : Bool → Run ε α} (h : Stepwise own x) (verbose : Bool) :
    Beside verbose (x verbose) :=
  h.leaves verbose (fun _ => trivial) (fun hverbose _ => hverbose) fun _ _ => trivial

theorem logsBelow {x : Bool → Run ε α} (h : Stepwise own x) {least : LogLevel}
    (hleast : LogLevel.debug.rank < least.rank) (verbose : Bool) : LogsBelow least (x verbose) := by
  induction h with
  | done a => exact logsBelow_pure a
  | fail e => exact logsBelow_fail e
  | note c message => exact logsBelow_note (c.withVerbose verbose) message
  | call t h hsub manifest more settings => exact logsBelow_call hleast t h _ manifest more settings
  | attempt _ ih => exact ih.attempt
  | bind _ _ ihx ihf => exact ihx.bind ihf

end Stepwise

end Run

end ProjectAudit
