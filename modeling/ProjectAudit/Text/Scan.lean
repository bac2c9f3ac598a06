import ProjectAudit.Text.Caseless

/-!
# Scanning the start of a text

Small scanners for texts of a fixed form.  Each takes something from the start of a text and gives
what it took, or the rest, or both; chains of them in `Option` read a line.
-/

namespace ProjectAudit.Text

/-- The text after `word`, when the text begins with it. -/
def afterWord? : (word : Text) → Text → Option Text
  | [], s => some s
  | w :: ws, c :: r => if w = c then afterWord? ws r else none
  | _ :: _, [] => none

/-- The start that equals `word` without regard to case, and the text after it. -/
def afterCaseless? : (word : Text) → Text → Option (Text × Text)
  | [], s => some ([], s)
  | w :: ws, c :: r =>
    if sameLetter w c then (afterCaseless? ws r).map fun (m, rest) => (c :: m, rest) else none
  | _ :: _, [] => none

/-- The longest start of code points of class `p` and the text after it, when the start is not
empty. -/
def spanSome? (p : CodePoint → Bool) (s : Text) : Option (Text × Text) :=
  let (front, rest) := s.span p
  if front.isEmpty then none else some (front, rest)

@[simp] theorem afterWord?_append (word s : Text) : afterWord? word (word ++ s) = some s := by
  induction word with
  | nil => rfl
  | cons w ws ih => simp [afterWord?, ih]

theorem afterWord?_eq_some {word s r : Text} (h : afterWord? word s = some r) :
    s = word ++ r := by
  induction word generalizing s with
  | nil => simpa [afterWord?] using h
  | cons w ws ih =>
    cases s with
    | nil => simp [afterWord?] at h
    | cons c t =>
      by_cases hc : w = c
      · simp only [afterWord?, hc, if_true] at h
        simp [hc, ih h]
      · simp [afterWord?, hc] at h

end ProjectAudit.Text
