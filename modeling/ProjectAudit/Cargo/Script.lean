import ProjectAudit.Text.Utf8

/-!
# Replies of the tool

What the tool answers is given from outside: for each subcommand a list of replies, of which each
call takes the next one.  The last reply of a list stays, and a subcommand without replies succeeds
and prints nothing.  What one subcommand is asked thus never changes what another one answers.
-/

namespace ProjectAudit.Cargo

/-- What a process leaves when it ends. -/
structure Response where
  exitCode : Int := 0
  stdout : List UInt8 := []
  stderr : List UInt8 := []
  deriving DecidableEq, Repr

/-- The process succeeded. -/
def Response.success (r : Response) : Bool :=
  r.exitCode == 0

/-- What starting a process comes to. -/
inductive Reply
  | finished (response : Response)
  | notStarted (reason : Text)
  deriving DecidableEq, Repr, Inhabited

/-- The replies still to come, for each subcommand. -/
abbrev Script := List (Text × List Reply)

namespace Script

/-- The replies still to come for one subcommand. -/
def pending (s : Script) (subcommand : Text) : List Reply :=
  ((s.find? fun e => e.1 == subcommand).map (·.2)).getD []

/-- The next reply among those still to come. -/
def firstReply : List Reply → Reply
  | [] => .finished {}
  | reply :: _ => reply

/-- The replies that are left after one is taken; the last one is never used up. -/
def afterReply : List Reply → List Reply
  | _ :: reply :: replies => reply :: replies
  | replies => replies

/-- The next reply to a subcommand. -/
def reply (s : Script) (subcommand : Text) : Reply :=
  firstReply (s.pending subcommand)

/-- The script after a call of a subcommand. -/
def advance (s : Script) (subcommand : Text) : Script :=
  s.map fun e => if e.1 = subcommand then (e.1, afterReply e.2) else e

theorem pending_advance_of_ne {a b : Text} (h : a ≠ b) (s : Script) :
    (s.advance a).pending b = s.pending b := by
  induction s with
  | nil => rfl
  | cons e s ih =>
    simp only [advance, pending, List.map_cons, List.find?_cons] at ih ⊢
    by_cases he : e.1 = a
    · have hb : (a == b) = false := by simp [h]
      simpa [he, hb] using ih
    · by_cases hb : e.1 = b
      · simp [hb, Ne.symm h]
      · have hb' : (e.1 == b) = false := by simp [hb]
        simpa [he, hb'] using ih

theorem reply_advance_of_ne {a b : Text} (h : a ≠ b) (s : Script) :
    (s.advance a).reply b = s.reply b := by
  rw [reply, pending_advance_of_ne h, reply]

end Script

end ProjectAudit.Cargo
