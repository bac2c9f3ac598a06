import ProjectAudit.Audit.Event
import ProjectAudit.Cargo.Script

/-!
# Runs

A run takes replies from the tool, leaves events behind, and ends with a value or a fault.  The
events of a run that ends with a fault are kept, as is the state of the replies: a fault undoes
nothing.

`Run` is a function, so two runs can be compared on all scripts, and the equations below say what
the script and the events of a sequence are.
-/

namespace ProjectAudit

/-- How a run ended. -/
structure Ending (ε α : Type) where
  value : Except ε α
  script : Cargo.Script
  events : List Event

/-- A run that ends with a value of `α` or a fault of `ε`. -/
def Run (ε α : Type) : Type :=
  Cargo.Script → Ending ε α

namespace Run

variable {ε δ α β : Type}

/-- The run that does nothing and ends with a value. -/
def done (a : α) : Run ε α :=
  fun script => ⟨.ok a, script, []⟩

/-- The run that does nothing and ends with a fault. -/
def fail (e : ε) : Run ε α :=
  fun script => ⟨.error e, script, []⟩

/-- One run and then another one that depends on its value. -/
def andThen (x : Run ε α) (f : α → Run ε β) : Run ε β :=
  fun script =>
    let first := x script
    match first.value with
    | .ok a =>
      let second := f a first.script
      ⟨second.value, second.script, first.events ++ second.events⟩
    | .error e => ⟨.error e, first.script, first.events⟩

instance : Monad (Run ε) where
  pure := done
  bind := andThen

/-- Leaves an event. -/
def emit (e : Event) : Run ε Unit :=
  fun script => ⟨.ok (), script, [e]⟩

/-- Logs a record. -/
def log (level : LogLevel) (source : LogSource) (message : Text) : Run ε Unit :=
  emit (.logged ⟨level, source, message⟩)

/-- Takes the next reply to a subcommand. -/
def takeReply (subcommand : Text) : Run ε Cargo.Reply :=
  fun script => ⟨.ok (script.reply subcommand), script.advance subcommand, []⟩

/-- A value or a fault that is there already. -/
def ofExcept : Except ε α → Run ε α
  | .ok a => done a
  | .error e => fail e

/-- The same run with its fault handed over as a value. -/
def attempt (x : Run ε α) : Run δ (Except ε α) :=
  fun script =>
    let ending := x script
    ⟨.ok ending.value, ending.script, ending.events⟩

@[simp] theorem pure_apply (a : α) (script : Cargo.Script) :
    (pure a : Run ε α) script = ⟨.ok a, script, []⟩ := rfl

@[simp] theorem emit_apply (e : Event) (script : Cargo.Script) :
    (emit e : Run ε Unit) script = ⟨.ok (), script, [e]⟩ := rfl

theorem bind_apply (x : Run ε α) (f : α → Run ε β) (script : Cargo.Script) :
    (x >>= f) script =
      match (x script).value with
      | .ok a =>
        ⟨(f a (x script).script).value, (f a (x script).script).script,
          (x script).events ++ (f a (x script).script).events⟩
      | .error e => ⟨.error e, (x script).script, (x script).events⟩ := rfl

end Run

end ProjectAudit
