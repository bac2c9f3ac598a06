import ProjectAudit.Audit.Run
import ProjectAudit.Files.Host

/-!
# Calling the tool

Each call has the form `cargo subcommand --manifest-path path …`.  Its environment is that of the
host, then the additions of the toolchain, then those of the call, each going before the ones named
earlier.

A test run is called with the recursion guard set, so that a check which is itself part of a test
suite can tell that it should not start that suite again.

A call can fail in two ways.  The system may not start the process, which the callers expect.  But
before the system is asked, the arguments and the environment have to be handed over to it, and a
text that has no form as bytes, or holds a NUL character, cannot be.  That no caller expects.
-/

namespace ProjectAudit

/-- The variable that is set while a test run is under way. -/
def recursionGuard : Text := "CARGO_CULTURE_TEST_RECURSION_BUSTER"

/-- Whether the host's environment says that a test run is under way. -/
def Host.recursionGuardActive (h : Host) : Bool :=
  Text.lower (Text.trim ((h.environmentValue? recursionGuard).getD [])) == "true"

namespace Cargo

/-- How the tool is called. -/
structure Toolchain where
  command : Text := "cargo"
  additions : List (Text × Text) := []
  deriving DecidableEq, Repr

/-- A process that could not be started. -/
structure InvocationError where
  arguments : List Text
  reason : Text
  deriving DecidableEq, Repr

/-- The wording of an invocation error. -/
def InvocationError.message (e : InvocationError) : Text :=
  "Could not run `" ++ Text.joined " " e.arguments ++ "`: " ++ e.reason

/-- Why a call cannot be handed over to the system. -/
inductive StartFault
  /-- An argument, or the name or value of a variable, is nothing that a process can be given. -/
  | text (fault : PathFault)
  /-- The name of a variable holds an equals sign. -/
  | variableName
  deriving DecidableEq, Repr

/-- The wording of a fault. -/
def StartFault.message : StartFault → Text
  | .text fault => fault.message
  | .variableName => "illegal environment variable name"

/-- Why a call has no output. -/
inductive CallFault
  | notStarted (e : InvocationError)
  | notHandedOver (arguments : List Text) (fault : StartFault)
  deriving DecidableEq, Repr

namespace CallFault

/-- The command line of the call. -/
def arguments : CallFault → List Text
  | .notStarted e => e.arguments
  | .notHandedOver arguments _ => arguments

/-- The wording of a fault. -/
def message : CallFault → Text
  | .notStarted e => e.message
  | .notHandedOver _ fault => fault.message

end CallFault

/-- A call that came to an end. -/
structure Output where
  arguments : List Text
  response : Response
  deriving DecidableEq, Repr

namespace Output

/-- The command line of the call. -/
def commandLine (o : Output) : Text :=
  Text.joined " " o.arguments

/-- The call succeeded. -/
def success (o : Output) : Bool :=
  o.response.success

/-- Standard output as text. -/
def stdoutText (o : Output) : Except Text.Utf8.DecodeError Text :=
  Text.Utf8.decode o.response.stdout

/-- Standard error as text, whatever its bytes. -/
def stderrText (o : Output) : Text :=
  Text.Utf8.decodeLossy o.response.stderr

end Output

/-- Checks that a text has a form as bytes. -/
def checkEncoding (t : Text) : Except StartFault Unit :=
  match encodeName t with
  | .ok _ => .ok ()
  | .error e => .error (.text (.unencodable e))

/-- Checks that a text holds no NUL character. -/
def checkNul (t : Text) : Except StartFault Unit :=
  if t.contains (.char '\x00') then .error (.text .nulCharacter) else .ok ()

/-- Checks an argument of a process. -/
def checkArgument (t : Text) : Except StartFault Unit := do
  checkEncoding t
  checkNul t

/-- Checks a variable that a process is given, but for NUL characters. -/
def checkVariable (name value : Text) : Except StartFault Unit := do
  checkEncoding name
  if name.contains (.char '=') then .error .variableName else checkEncoding value

/-- Hands the variables and the arguments of a process over to the system, which looks for NUL
characters in the variables at the end. -/
def handOver (entries : List (Text × Text)) (arguments : List Text) : Except StartFault Unit := do
  entries.forM fun v => checkVariable v.1 v.2
  arguments.forM checkArgument
  entries.forM fun v => do
    checkNul v.1
    checkNul v.2

namespace Toolchain

/-- The toolchain that a host's environment asks for. -/
def ofHost (h : Host) : Toolchain :=
  let command := Text.trim ((h.environmentValue? "CARGO").getD [])
  if command.isEmpty then {} else { command }

/-- The environment of a call; of entries for one variable the first counts. -/
def environment (t : Toolchain) (h : Host) (settings : List (Text × Text)) :
    List (Text × Text) :=
  settings ++ t.additions ++ h.environment

/-- The host as a called process sees it. -/
def hostOfCall (t : Toolchain) (h : Host) (settings : List (Text × Text)) : Host :=
  { h with environment := t.environment h settings }

/-- The command line of a call. -/
def arguments (t : Toolchain) (subcommand : Text) (manifest : Path) (more : List Text) :
    List Text :=
  t.command :: subcommand :: "--manifest-path" :: manifest.text :: more

/-- The variables that the process of a call is given, in the order in which they are handed over,
each with the value that counts. -/
def entries (t : Toolchain) (h : Host) (settings : List (Text × Text)) : List (Text × Text) :=
  (h.environment ++ t.additions ++ settings).map fun v =>
    (v.1, ((t.hostOfCall h settings).environmentValue? v.1).getD [])

/-- Calls a subcommand and waits for its end.  A call that cannot be handed over takes its reply
like any other, but nothing comes of it. -/
def call (t : Toolchain) (h : Host) (subcommand : Text) (manifest : Path) (more : List Text)
    (settings : List (Text × Text)) : Run CallFault Output := do
  let arguments := t.arguments subcommand manifest more
  let line := Text.joined " " arguments
  Run.log .debug .toolchain ("Running " ++ line)
  Run.emit (.started ⟨arguments, (t.hostOfCall h settings).environmentValue? recursionGuard⟩)
  let reply ← Run.takeReply subcommand
  match handOver (t.entries h settings) arguments, reply with
  | .error fault, _ => Run.fail (.notHandedOver arguments fault)
  | .ok _, .notStarted reason => Run.fail (.notStarted { arguments, reason })
  | .ok _, .finished response =>
    Run.log .debug .toolchain (line ++ " exited with " ++ Text.ofInt response.exitCode)
    return { arguments, response }

/-- Asks for the metadata of a project. -/
def metadata (t : Toolchain) (h : Host) (manifest : Path) : Run CallFault Output :=
  t.call h "metadata" manifest ["--format-version", "1"] []

/-- Cleans one package. -/
def clean (t : Toolchain) (h : Host) (manifest : Path) (package : Text) : Run CallFault Output :=
  t.call h "clean" manifest ["--package", package] []

/-- Builds the project. -/
def build (t : Toolchain) (h : Host) (manifest : Path) : Run CallFault Output :=
  t.call h "build" manifest ["--message-format=json"] []

/-- Runs the project's tests. -/
def test (t : Toolchain) (h : Host) (manifest : Path) : Run CallFault Output :=
  t.call h "test" manifest [] [(recursionGuard, "true")]

end Toolchain

/-- What a caller makes of a call: a process that could not be started is handed to it as a value,
and a call that could not be handed over ends its run. -/
def attemptCall {ε : Type} (unexpected : StartFault → ε) (call : Run CallFault Output) :
    Run ε (Except InvocationError Output) := do
  match ← Run.attempt call with
  | .ok output => return .ok output
  | .error (.notStarted e) => return .error e
  | .error (.notHandedOver _ fault) => Run.fail (unexpected fault)

end Cargo

end ProjectAudit
