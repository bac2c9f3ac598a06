import ProjectAudit.Files.Host
import ProjectAudit.Outcome.Basic
import ProjectAudit.Pattern.Basic

/-!
# Scanning a directory

A scan looks for a file directly in a directory whose name matches.  Its outcome depends on the
names in the directory as a set: success if some matching name is a file of the kind asked for;
otherwise undetermined if some matching entry cannot be inspected; otherwise failure.

An entry cannot be inspected when the file system refuses the way to it.  What stands at the end of
a link has to be asked for, and so has the size of a file; that nothing is at the end of a link is
an answer.
-/

namespace ProjectAudit

/-- What inspecting an entry of a directory shows. -/
inductive Inspection
  | counts
  | ignored
  | unreadable
  deriving DecidableEq, Repr

namespace Host

/-- Inspects an entry of a directory.  The directory is given by a path and by the location that it
leads to, since what the file system makes of an entry depends on the whole way to it. -/
def inspect (h : Host) (nonempty : Bool) (directory : Path) (l : Location) (name : FileName) :
    Inspection :=
  let p := directory.child (decodeName name)
  match h.tree.node? (name :: l) with
  | some (.file content) =>
    if !nonempty then .counts
    else match h.spot p with
      | .ok _ => if content.isEmpty then .ignored else .counts
      | .error _ => .unreadable
  | some (.link _) =>
    match h.find p with
    | .ok l =>
      if (h.tree.node? l).any (if nonempty then isFilledFile else isFileNode) then .counts
      else .ignored
    | .error (.refused .noEntry _) => .ignored
    | .error _ => .unreadable
  | _ => .ignored

/-- The outcome of a scan over what inspecting the matching entries shows. -/
def scanOutcome (inspections : List Inspection) : Outcome :=
  if inspections.contains .counts then .success
  else if inspections.contains .unreadable then .undetermined
  else .failure

/-- Looks for a file with a matching name directly in a directory.  Without a directory there, and
of one that does not let itself be listed, the answer is not known. -/
def scan (h : Host) (accepts : Text → Bool) (nonempty : Bool) (directory : Path) :
    Except PathFault Outcome := do
  if ← h.isDirectory directory then
    match h.listing? directory with
    | some (l, names) =>
      let matching := names.filter fun name => accepts (decodeName name)
      return scanOutcome (matching.map (h.inspect nonempty directory l))
    | none => return .undetermined
  else return .undetermined

end Host

end ProjectAudit
