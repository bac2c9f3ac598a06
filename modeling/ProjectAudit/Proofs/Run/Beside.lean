import ProjectAudit.Proofs.Run.Leaves

/-!
# Runs that leave the report alone

Only three steps of the program write to the report: the description of a rule, its label, and the
summary.  All other runs leave what stands beside the report: processes, log records, and notes if
notes are wished for.  A run of this kind that is not asked for notes prints nothing.

* `Run.Beside`: the runs that leave the report alone.
* `Run.Beside.fullText_eq_nil`: without notes they print nothing.
* `Run.OnlyLogs`: the runs that leave nothing but log records and take no reply either.
* `Run.LogsBelow`: the runs that log nothing of a given level or above.
-/

namespace ProjectAudit

/-- An event beside the report: a note, if notes are wished for, a process or a log record. -/
def Event.IsBeside (verbose : Bool) : Event → Prop
  | .report _ => False
  | .note _ => verbose = true
  | .started _ | .logged _ => True

theorem Event.fullText_append (a b : List Event) : fullText (a ++ b) = fullText a ++ fullText b :=
  List.flatMap_append

/-- What stands beside the report prints nothing, without notes. -/
theorem Event.fullText_eq_nil {events : List Event} (h : ∀ e ∈ events, e.IsBeside false) :
    fullText events = [] := by
  rw [fullText, List.flatMap_eq_nil_iff]
  intro e hmem
  have hbeside := h e hmem
  cases e with
  | report text => exact hbeside.elim
  | note text => exact absurd hbeside Bool.false_ne_true
  | started call => rfl
  | logged record => rfl

namespace Run

variable {ε δ α β : Type} {verbose : Bool}

/-- A run leaves nothing but what stands beside the report. -/
def Beside (verbose : Bool) (x : Run ε α) : Prop :=
  ∀ s : Cargo.Script, ∀ e ∈ (x s).events, e.IsBeside verbose

/-- **Without notes, a run beside the report prints nothing.** -/
theorem Beside.fullText_eq_nil {x : Run ε α} (h : Beside false x) (s : Cargo.Script) :
    Event.fullText (x s).events = [] :=
  Event.fullText_eq_nil (h s)

/-! ## Runs that only log -/

/-- A run takes no reply and leaves nothing but log records. -/
structure OnlyLogs (x : Run ε α) : Prop where
  script_eq : ∀ s : Cargo.Script, (x s).script = s
  logged : ∀ s : Cargo.Script, ∀ e ∈ (x s).events, ∃ record, e = .logged record

theorem onlyLogs_pure (a : α) : OnlyLogs (pure a : Run ε α) :=
  ⟨fun _ => rfl, leaves_pure a⟩

theorem onlyLogs_fail (e : ε) : OnlyLogs (fail e : Run ε α) :=
  ⟨fun _ => rfl, leaves_fail e⟩

theorem onlyLogs_ofExcept (r : Except ε α) : OnlyLogs (ofExcept r) := by
  cases r with
  | ok a => exact onlyLogs_pure a
  | error e => exact onlyLogs_fail e

theorem onlyLogs_log (level : LogLevel) (source : LogSource) (message : Text) :
    OnlyLogs (log level source message : Run ε Unit) :=
  ⟨fun _ => rfl, leaves_emit ⟨_, rfl⟩⟩

theorem OnlyLogs.bind {x : Run ε α} {f : α → Run ε β} (hx : OnlyLogs x)
    (hf : ∀ a, OnlyLogs (f a)) : OnlyLogs (x >>= f) where
  script_eq s := by
    cases hvalue : (x s).value with
    | error fault =>
      rw [bind_of_error hvalue]
      exact hx.script_eq s
    | ok a =>
      rw [bind_of_ok hvalue]
      exact ((hf a).script_eq _).trans (hx.script_eq s)
  logged := Leaves.bind hx.logged fun a => (hf a).logged

theorem OnlyLogs.leaves {P : Event → Prop} {x : Run ε α} (h : OnlyLogs x)
    (hlogged : ∀ r, P (.logged r)) : Leaves P x := by
  intro s e hmem
  obtain ⟨record, rfl⟩ := h.logged s e hmem
  exact hlogged record

theorem OnlyLogs.beside {x : Run ε α} (h : OnlyLogs x) : Beside verbose x :=
  h.leaves fun _ => trivial

theorem OnlyLogs.calls_eq_nil {x : Run ε α} (h : OnlyLogs x) (s : Cargo.Script) :
    Event.calls (x s).events = [] := by
  rw [Event.calls, List.filterMap_eq_nil_iff]
  intro e hmem
  obtain ⟨record, rfl⟩ := h.logged s e hmem
  rfl

/-! ## Runs that log little -/

variable {least : LogLevel}

/-- A run logs nothing of the given level or above. -/
def LogsBelow (least : LogLevel) (x : Run ε α) : Prop :=
  ∀ s : Cargo.Script, Event.log least (x s).events = []

theorem logsBelow_pure (a : α) : LogsBelow least (pure a : Run ε α) :=
  fun _ => rfl

theorem logsBelow_fail (e : ε) : LogsBelow least (fail e : Run ε α) :=
  fun _ => rfl

theorem logsBelow_note (c : Context) (message : Text) :
    LogsBelow least (c.note message : Run ε Unit) := by
  intro s
  rw [Context.note]
  split <;> rfl

/-- A call logs its start and its end for debugging. -/
theorem logsBelow_call (hleast : LogLevel.debug.rank < least.rank) (t : Cargo.Toolchain) (h : Host)
    (sub : Text) (manifest : Path) (more : List Text) (settings : List (Text × Text)) :
    LogsBelow least (t.call h sub manifest more settings) := by
  intro s
  have hdebug : ¬ least.rank ≤ LogLevel.debug.rank := Nat.not_le.2 hleast
  have hopening : Event.log least (t.opening h sub manifest more settings) = [] := by
    simp [Event.log, Cargo.Toolchain.opening, Cargo.Toolchain.startRecord, hdebug]
  rw [Cargo.Toolchain.call_apply]
  cases t.handed h sub manifest more settings with
  | error fault => exact hopening
  | ok _ =>
    dsimp only
    rw [Event.log_append, hopening, List.nil_append]
    cases s.reply sub with
    | notStarted reason => rfl
    | finished response =>
      simp [Event.log, Cargo.Toolchain.closing, Cargo.Toolchain.endRecord, hdebug]

theorem LogsBelow.attempt {x : Run ε α} (hx : LogsBelow least x) :
    LogsBelow least (attempt x : Run δ (Except ε α)) :=
  hx

theorem LogsBelow.bind {x : Run ε α} {f : α → Run ε β} (hx : LogsBelow least x)
    (hf : ∀ a, LogsBelow least (f a)) : LogsBelow least (x >>= f) := by
  intro s
  cases hvalue : (x s).value with
  | error fault =>
    rw [bind_of_error hvalue]
    exact hx s
  | ok a =>
    rw [bind_of_ok hvalue, Event.log_append, hx s, List.nil_append]
    exact hf a _

end Run

end ProjectAudit
