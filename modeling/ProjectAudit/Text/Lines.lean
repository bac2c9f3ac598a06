import ProjectAudit.Text.Blank

/-!
# Lines

Three ways to cut a text into lines, one for each kind of source.

* `splitLines` ends a line at any line boundary of `isBoundary` and takes `"\r\n"` as one.  Build
  output is read with it.
* `unifyNewlines` turns `"\r\n"` and `"\r"` into `"\n"`, as reading a text file does.
* `splitNewlines` cuts at `'\n'` alone and keeps a last empty line.  Test output and text files are
  read with it.
-/

namespace ProjectAudit.Text

/-- The code points that end a line of build output. -/
def isBoundary (c : CodePoint) : Bool :=
  let n := c.toNat
  (10 ≤ n && n ≤ 13) || (28 ≤ n && n ≤ 30) || n == 0x85 || n == 0x2028 || n == 0x2029

/-- The code point in front of the first of the lines. -/
def consToFirst (c : CodePoint) : List Text → List Text
  | [] => [[c]]
  | l :: ls => (c :: l) :: ls

/-- Lines ended by any boundary; a boundary at the end opens no further line. -/
def splitLines : Text → List Text
  | [] => []
  | .char '\r' :: .char '\n' :: r => [] :: splitLines r
  | c :: r => if isBoundary c then [] :: splitLines r else consToFirst c (splitLines r)

/-- Every line end written as `'\n'`. -/
def unifyNewlines : Text → Text
  | [] => []
  | .char '\r' :: .char '\n' :: r => '\n' :: unifyNewlines r
  | c :: r => (if c = '\r' then .char '\n' else c) :: unifyNewlines r

/-- Lines ended by `'\n'`; the text after the last one is a line too, so there is always one. -/
def splitNewlines : Text → List Text
  | [] => [[]]
  | c :: r => if c = '\n' then [] :: splitNewlines r else consToFirst c (splitNewlines r)

@[simp] theorem consToFirst_ne_nil (c : CodePoint) (ls : List Text) : consToFirst c ls ≠ [] := by
  cases ls <;> simp [consToFirst]

theorem splitNewlines_ne_nil (s : Text) : splitNewlines s ≠ [] := by
  cases s with
  | nil => simp [splitNewlines]
  | cons c r => by_cases h : c = (.char '\n' : CodePoint) <;> simp [splitNewlines, h]

end ProjectAudit.Text
