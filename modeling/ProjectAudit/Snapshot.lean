import ProjectAudit.Cargo.Script
import ProjectAudit.Files.Edit
import ProjectAudit.Files.Host
import ProjectAudit.Json.Basic
import ProjectAudit.Text.Utf8

/-!
# Snapshots of a machine

A snapshot is a JSON value that holds what a check can see: files, the working directory,
environment variables and what the tool replies.  All paths are taken from one base directory.

* `tree` gives what stands at each path: a text or an object `hex` of bytes for a file, an object
  `link` for a link.  A path that ends in a slash is a directory.
* `cwd` is the working directory, the base itself when it is absent.
* `env` gives the variables.
* `cargo` gives for each subcommand one reply or a list of them.  A reply is an object with the
  fields `returncode`, `stdout` and `stderr`, or with the field `spawn_error`.
-/

namespace ProjectAudit.Snapshot

/-! ## Bytes -/

/-- The value of a hexadecimal digit. -/
def hexDigit (c : CodePoint) : UInt8 :=
  UInt8.ofNat (if c.isDigit then c.toNat - 48 else c.toLower.toNat - 87)

/-- The bytes that pairs of hexadecimal digits denote. -/
def hexBytes : Text → List UInt8
  | high :: low :: rest => (hexDigit high * 16 + hexDigit low) :: hexBytes rest
  | _ => []

/-- The bytes that a value stands for. -/
def bytesOf (v : Json) : List UInt8 :=
  match v with
  | .str s => Text.Utf8.encodeString s.toStringLossy
  | v => hexBytes ((v.get "hex").str?.getD [])

/-! ## Files -/

/-- The node that a field of `tree` describes. -/
def nodeOf (path : Text) (v : Json) : Node :=
  if path.getLast? = some (.char '/') then .directory
  else match (v.get "link").str? with
    | some target => .link ((encodeName target).toOption.getD [])
    | none => .file (bytesOf v)

/-- The tree with the nodes that an object describes, in its order. -/
def putAll (t : FileTree) (base : Location) (v : Json) : FileTree :=
  match v with
  | .obj fields =>
    fields.foldl (fun t (path, v) => t.put base (.ofText path) (nodeOf path v)) t
  | _ => t

/-- The tree that holds only a base directory. -/
def bare (base : Location) : FileTree :=
  ({} : FileTree).put [] (.ofLocation base) .directory

/-! ## Variables and replies -/

/-- The fields of an object whose values are texts. -/
def textFields : Json → List (Text × Text)
  | .obj fields => fields.filterMap fun (name, v) => v.str?.map (name, ·)
  | _ => []

/-- The reply that a value describes. -/
def replyOf (v : Json) : Cargo.Reply :=
  match (v.get "spawn_error").str? with
  | some reason => .notStarted reason
  | none => .finished {
      exitCode := match v.get "returncode" with
        | .int n => n
        | _ => 0
      stdout := bytesOf (v.get "stdout")
      stderr := bytesOf (v.get "stderr") }

/-- The replies that a value describes. -/
def repliesOf : Json → List Cargo.Reply
  | .arr vs => vs.map replyOf
  | v => [replyOf v]

/-- The replies that a snapshot describes. -/
def script (v : Json) : Cargo.Script :=
  match v.get "cargo" with
  | .obj fields => fields.map fun (subcommand, v) => (subcommand, repliesOf v)
  | _ => []

/-- The host that a snapshot describes over a given tree. -/
def hostOver (t : FileTree) (base : Location) (v : Json) : Host where
  tree := t
  workingDirectory :=
    match t.locate base true (.ofText ((v.get "cwd").str?.getD [])) with
    | .ok (.taken l) => l
    | _ => base
  environment := textFields (v.get "env")

/-- The host that a snapshot describes. -/
def host (base : Location) (v : Json) : Host :=
  hostOver (putAll (bare base) base (v.get "tree")) base v

end ProjectAudit.Snapshot
