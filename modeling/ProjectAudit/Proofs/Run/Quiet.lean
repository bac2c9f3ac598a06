import ProjectAudit.Proofs.Run.Stepwise

/-!
# Runs without their notes

Two runs that differ in the wish for more detail should differ in their notes and in nothing else.
To say so for single runs one would have to compare two of them at each of their steps.  It is
easier to take the notes of a run away and to compare with the run that was never asked for them,
because taking notes away goes with everything that runs are put together from: the notes of a
sequence are those of its parts, and no part decides anything by a note.

So there is one equation for each way of building a run, and what they add up to is an equation
again: without its notes, the run that is asked for notes *is* the run that is not.

* `Run.withoutNotes`: a run whose notes are taken away.
* `Run.withoutNotes_bind`: taking notes away goes with putting runs after one another.
* `Run.Stepwise.withoutNotes`: the steps of rules are the same with and without notes.
-/

namespace ProjectAudit

namespace Event

/-- A note. -/
def isNote : Event → Bool
  | .note _ => true
  | _ => false

/-- The events that are no notes. -/
def withoutNotes (events : List Event) : List Event :=
  events.filter fun e => !e.isNote

@[simp] theorem withoutNotes_append (a b : List Event) :
    withoutNotes (a ++ b) = withoutNotes a ++ withoutNotes b :=
  List.filter_append a b

/-! ### What is read off the other events

A process is no note, and neither is a log record or text of the report.  So nothing of these is
lost, and a stream that takes both the report and the notes is left with the report. -/

variable {α : Type} (events : List Event)

/-- Whatever is read off each event, and is nothing for a note. -/
theorem filterMap_withoutNotes {f : Event → Option α} (hnote : ∀ text, f (.note text) = none) :
    (withoutNotes events).filterMap f = events.filterMap f := by
  rw [withoutNotes, List.filterMap_filter]
  congr 1
  funext e
  cases e with
  | note text => exact (hnote text).symm
  | _ => rfl

/-- The same for texts; a note may be read where it still stands, for it does not stand there. -/
theorem flatMap_withoutNotes {f g : Event → List α} (hnote : ∀ text, f (.note text) = [])
    (hother : ∀ e, e.isNote = false → g e = f e) :
    (withoutNotes events).flatMap g = events.flatMap f := by
  induction events with
  | nil => rfl
  | cons e events ih =>
    rw [List.flatMap_cons, ← ih]
    by_cases he : e.isNote = true
    · have hempty : f e = [] := by
        cases e with
        | note text => exact hnote text
        | _ => cases he
      rw [withoutNotes, List.filter_cons_of_neg (by simp [he]), hempty]
      rfl
    · rw [withoutNotes, List.filter_cons_of_pos (by simp [he]), List.flatMap_cons,
        hother e (Bool.eq_false_iff.2 he)]
      rfl

@[simp] theorem calls_withoutNotes : calls (withoutNotes events) = calls events :=
  filterMap_withoutNotes events fun _ => rfl

@[simp] theorem log_withoutNotes (least : LogLevel) :
    log least (withoutNotes events) = log least events :=
  filterMap_withoutNotes events fun _ => rfl

@[simp] theorem reportText_withoutNotes : reportText (withoutNotes events) = reportText events :=
  flatMap_withoutNotes events (fun _ => rfl) fun _ _ => rfl

@[simp] theorem fullText_withoutNotes : fullText (withoutNotes events) = reportText events := by
  refine flatMap_withoutNotes events (fun _ => rfl) fun e he => ?_
  cases e with
  | note text => cases he
  | _ => rfl

@[simp] theorem noteText_withoutNotes : noteText (withoutNotes events) = [] := by
  have hnothing : noteText (withoutNotes events) = events.flatMap fun _ => [] := by
    refine flatMap_withoutNotes events (fun _ => rfl) fun e he => ?_
    cases e with
    | note text => cases he
    | _ => rfl
  rw [hnothing, List.flatMap_eq_nil_iff]
  exact fun _ _ => rfl

end Event

/-- How a run ended, without its notes. -/
def Ending.withoutNotes {ε α : Type} (e : Ending ε α) : Ending ε α :=
  { e with events := Event.withoutNotes e.events }

namespace Run

variable {ε δ α β : Type}

/-- A run whose notes are taken away. -/
def withoutNotes (x : Run ε α) : Run ε α :=
  fun script => (x script).withoutNotes

/-! ## One equation for each way of building a run -/

@[simp] theorem withoutNotes_pure (a : α) : withoutNotes (pure a : Run ε α) = pure a :=
  rfl

@[simp] theorem withoutNotes_fail (e : ε) : withoutNotes (fail e : Run ε α) = fail e :=
  rfl

@[simp] theorem withoutNotes_ofExcept (r : Except ε α) :
    withoutNotes (ofExcept r) = ofExcept r := by
  cases r <;> rfl

@[simp] theorem withoutNotes_emit_report (text : Text) :
    withoutNotes (emit (.report text) : Run ε Unit) = emit (.report text) :=
  rfl

/-- A note that is wished for is all that there is to a note. -/
theorem withoutNotes_note (c : Context) (message : Text) :
    withoutNotes ((c.withVerbose true).note message : Run ε Unit) =
      (c.withVerbose false).note message :=
  rfl

/-- A call writes no notes. -/
@[simp] theorem withoutNotes_call (t : Cargo.Toolchain) (h : Host) (sub : Text) (manifest : Path)
    (more : List Text) (settings : List (Text × Text)) :
    withoutNotes (t.call h sub manifest more settings) =
      t.call h sub manifest more settings := by
  funext s
  rw [withoutNotes, Cargo.Toolchain.call_apply]
  cases t.handed h sub manifest more settings with
  | error fault => rfl
  | ok _ => cases s.reply sub <;> rfl

@[simp] theorem withoutNotes_attempt (x : Run ε α) :
    withoutNotes (attempt x : Run δ (Except ε α)) = attempt (withoutNotes x) :=
  rfl

/-- **Taking notes away goes with sequences**, since how a run goes on depends on the value of what
went before, and not on its events. -/
@[simp] theorem withoutNotes_bind (x : Run ε α) (f : α → Run ε β) :
    withoutNotes (x >>= f) = withoutNotes x >>= fun a => withoutNotes (f a) := by
  funext s
  have hfirst : (withoutNotes x s).value = (x s).value := rfl
  rw [withoutNotes, bind_apply, bind_apply, hfirst]
  cases (x s).value with
  | error e => rfl
  | ok a =>
    show Ending.withoutNotes _ = _
    rw [Ending.withoutNotes, Event.withoutNotes_append]
    rfl

/-- A run that writes no notes is left as it is. -/
theorem withoutNotes_of_leaves {x : Run ε α} (h : Leaves (fun e => e.isNote = false) x) :
    x.withoutNotes = x := by
  funext s
  have hkept : Event.withoutNotes (x s).events = (x s).events :=
    List.filter_eq_self.2 fun e hmem => by rw [h s e hmem]; rfl
  rw [withoutNotes, Ending.withoutNotes, hkept]

theorem OnlyLogs.withoutNotes {x : Run ε α} (h : OnlyLogs x) : x.withoutNotes = x :=
  withoutNotes_of_leaves (h.leaves fun _ => rfl)

/-- **Without its notes, a run made of steps is the run that was not asked for notes.** -/
theorem Stepwise.withoutNotes {own : List Text} {x : Bool → Run ε α} (h : Stepwise own x) :
    (x true).withoutNotes = x false := by
  induction h with
  | done a => exact withoutNotes_pure a
  | fail e => exact withoutNotes_fail e
  | note c message => exact withoutNotes_note c message
  | call t h hsub manifest more settings => exact withoutNotes_call t h _ manifest more settings
  | attempt _ ih => rw [withoutNotes_attempt, ih]
  | bind _ _ ihx ihf =>
    rw [withoutNotes_bind, ihx]
    simp only [ihf]

end Run

end ProjectAudit
