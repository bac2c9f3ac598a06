import ProjectAudit.Text.Basic

/-!
# What a run leaves behind

A run writes text, starts processes and logs.  All of it is one list of events in the order in which
it happened; the text on a stream, the processes and the log are read off the list.  Since the list
of two steps is the concatenation of their lists, so is everything read off it.
-/

namespace ProjectAudit

/-- How much a log record matters. -/
inductive LogLevel
  | debug
  | info
  | warning
  | error
  deriving DecidableEq, Repr

/-- The name of a level. -/
def LogLevel.name : LogLevel → String
  | .debug => "DEBUG"
  | .info => "INFO"
  | .warning => "WARNING"
  | .error => "ERROR"

/-- The rank of a level, the least for debugging. -/
def LogLevel.rank : LogLevel → Nat
  | .debug => 0
  | .info => 1
  | .warning => 2
  | .error => 3

/-- The part of the program that logs. -/
inductive LogSource
  | toolchain
  | check
  | checklist
  | evaluation
  deriving DecidableEq, Repr

/-- The name under which a part logs. -/
def LogSource.name : LogSource → String
  | .toolchain => "culture.connectors.cargo.commands"
  | .check => "culture.pipelines.culture_check"
  | .checklist => "culture.rules_engine.checklist"
  | .evaluation => "culture.rules_engine.runner"

/-- A log record. -/
structure LogRecord where
  level : LogLevel
  source : LogSource
  message : Text
  deriving DecidableEq, Repr

/-- A record with the name of its source. -/
def LogRecord.withSource (r : LogRecord) : Text :=
  r.level.name ++ " " ++ r.source.name ++ ": " ++ r.message

/-- A record without its source. -/
def LogRecord.short (r : LogRecord) : Text :=
  r.level.name ++ ": " ++ r.message

/-- A process that was started, or that was tried in vain: its command line, and the value of the
recursion guard in its environment. -/
structure Call where
  arguments : List Text
  guard : Option Text
  deriving DecidableEq, Repr

/-- Something that happens in a run. -/
inductive Event
  /-- Text of the report. -/
  | report (text : Text)
  /-- Text written beside the report, at the wish for more detail. -/
  | note (text : Text)
  | started (call : Call)
  | logged (record : LogRecord)
  deriving DecidableEq, Repr

namespace Event

/-- The text of the report. -/
def reportText (events : List Event) : Text :=
  events.flatMap fun
    | .report text => text
    | _ => []

/-- The text of the notes. -/
def noteText (events : List Event) : Text :=
  events.flatMap fun
    | .note text => text
    | _ => []

/-- The text of a stream that takes both the report and the notes. -/
def fullText (events : List Event) : Text :=
  events.flatMap fun
    | .report text => text
    | .note text => text
    | _ => []

/-- The processes, in the order of their starts. -/
def calls (events : List Event) : List Call :=
  events.filterMap fun
    | .started call => some call
    | _ => none

/-- The log records of at least the given level. -/
def log (least : LogLevel) (events : List Event) : List LogRecord :=
  events.filterMap fun
    | .logged record => if least.rank ≤ record.level.rank then some record else none
    | _ => none

@[simp] theorem calls_append (a b : List Event) : calls (a ++ b) = calls a ++ calls b := by
  simp [calls]

@[simp] theorem log_append (least : LogLevel) (a b : List Event) :
    log least (a ++ b) = log least a ++ log least b := by
  simp [log]

end Event

end ProjectAudit
