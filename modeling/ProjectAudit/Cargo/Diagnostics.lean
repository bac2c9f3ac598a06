import ProjectAudit.Json.Plain
import ProjectAudit.Json.Reader
import ProjectAudit.Text.Lines
import ProjectAudit.Text.Scan
import ProjectAudit.Text.Word

/-!
# Diagnostics of a build

A build reports on two streams.  Standard output holds one JSON message a line; those of the
compiler carry a level and a text.  Standard error holds plain lines such as `warning: unused`.
Both are read line by line, and each line gives at most one diagnostic.

A line of standard output that is no JSON is passed over.  One that goes beyond the limits of the
JSON reader ends the collection.
-/

namespace ProjectAudit.Cargo

/-- A warning or an error of a build. -/
structure Diagnostic where
  level : Text
  message : Text
  deriving DecidableEq, Repr

namespace Diagnostic

/-- The levels that count as diagnostics. -/
def levels : List Text := ["warning", "error"]

/-- The diagnostic that a message of the compiler carries. -/
def ofMessage? (message : Json) : Option Diagnostic :=
  match message.get "message" with
  | .obj fields =>
    let inner := Json.obj fields
    let level := (inner.get "level").textOrEmpty
    let rendered := inner.get "rendered"
    let text := if rendered.isEmptyValue then inner.get "message" else rendered
    if (message.get "reason").str? = some "compiler-message" ∧ levels.contains level then
      some ⟨level, text.textOrEmpty⟩
    else none
  | _ => none

/-- The diagnostic in a line of standard output. -/
def ofOutputLine (line : Text) : Except Json.Limit (Option Diagnostic) :=
  let line := Text.trim line
  if line.head? = some (.char '\x7b') then
    match Json.read line with
    | .ok message => .ok (ofMessage? message)
    | .error (.malformed _) => .ok none
    | .error (.limit l) => .error l
  else .ok none

/-- The text after a code in brackets, or the text itself when it begins with none. -/
def afterCode? : Text → Option (Text)
  | .char '[' :: r => do
    let (_, r) ← Text.spanSome? Text.isWord r
    Text.afterWord? [']'] r
  | s => some s

/-- The level word at the start of a line of the form `level: …` or `level[code]: …`. -/
def levelWord? (line : Text) : Option (Text) :=
  levels.findSome? fun level => do
    let (word, r) ← Text.afterCaseless? level line
    let r ← afterCode? r
    let _ ← Text.afterWord? [':'] r
    return word

/-- The diagnostic in a line of standard error. -/
def ofErrorLine? (line : Text) : Option Diagnostic :=
  let line := Text.trim line
  (levelWord? line).map fun word => ⟨Text.lower word, line⟩

/-- The diagnostics of standard output, in order. -/
def ofOutput (stdout : Text) : Except Json.Limit (List Diagnostic) :=
  ((Text.splitLines stdout).mapM ofOutputLine).map fun found => found.filterMap id

/-- The diagnostics of standard error, in order. -/
def ofErrors (stderr : Text) : List Diagnostic :=
  (Text.splitLines stderr).filterMap ofErrorLine?

/-- The diagnostics of a build, those of standard output first. -/
def collect (stdout stderr : Text) : Except Json.Limit (List Diagnostic) :=
  (ofOutput stdout).map (· ++ ofErrors stderr)

end Diagnostic

end ProjectAudit.Cargo
