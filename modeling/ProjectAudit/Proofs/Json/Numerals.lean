import ProjectAudit.Json.Reader
import Mathlib.Data.List.Basic
import Mathlib.Data.List.TakeDrop

/-!
# Integers are read back

An integer is written in decimal digits, with a sign in front if it is negative.  The reader takes
all digits that it finds, so what follows a number matters: behind a number there has to be a blank,
a comma, a closing bracket or brace, or the end.

* `Text.boundedNumeral?_digitsOf`: the digits of a number denote it, if there are not too many.
* `Json.atom_int`: an integer is read back.
-/

namespace ProjectAudit

theorem CodePoint.isDigit_char (d : Char) : (CodePoint.char d).isDigit = d.isDigit := by
  rw [isDigit, Char.isDigit, Bool.eq_iff_iff, Bool.and_eq_true, Bool.and_eq_true,
    decide_eq_true_eq, decide_eq_true_eq, decide_eq_true_eq, decide_eq_true_eq]
  exact Iff.rfl

namespace Text

theorem digitValue?_of_isDigit {c : CodePoint} (h : c.isDigit = true) :
    digitValue? c = some (c.toNat - 48) := by
  have hlt : c.toNat < 128 := by
    rw [CodePoint.isDigit, Bool.and_eq_true, decide_eq_true_eq, decide_eq_true_eq] at h
    omega
  rw [digitValue?, if_pos hlt, if_pos h]

/-- The decimal digits of a number. -/
def digitsOf (n : Nat) : Text :=
  (Nat.toDigits 10 n).map .char

theorem ofString_toString_nat (n : Nat) : ofString (toString n) = digitsOf n := by
  simp [ofString, digitsOf]

theorem ofString_toString_neg (n : Nat) :
    ofString (toString (-(n + 1 : Nat) : Int)) = .char '-' :: digitsOf (n + 1) := by
  have hrepr : toString (-(n + 1 : Nat) : Int) = "-" ++ (n + 1).repr := rfl
  rw [hrepr, ofString_append]
  simp [ofString, digitsOf]

theorem digitsOf_ne_nil (n : Nat) : digitsOf n ≠ [] := by
  simp [digitsOf]

theorem isDigit_of_mem_digitsOf {n : Nat} {c : CodePoint} (h : c ∈ digitsOf n) :
    c.isDigit = true := by
  obtain ⟨d, hmem, rfl⟩ := List.mem_map.1 h
  rw [CodePoint.isDigit_char]
  exact Nat.isDigit_of_mem_toDigits (by decide) (by decide) hmem

/-- Only zero begins with a zero. -/
theorem head?_digitsOf_ne {n : Nat} (h : n ≠ 0) : (digitsOf n).head? ≠ some (.char '0') := by
  suffices hdigits : (Nat.toDigits 10 n).head? ≠ some '0' by
    rw [digitsOf, List.head?_map]
    cases hhead : (Nat.toDigits 10 n).head? with
    | none => simp
    | some d => simpa [hhead] using hdigits
  induction n using Nat.strongRecOn with
  | _ n ih =>
    rw [Nat.toDigits_eq_if (by decide)]
    split
    · simpa using h
    · rw [List.head?_append_of_ne_nil _ Nat.toDigits_ne_nil]
      exact ih (n / 10) (by omega) (by omega)

/-- The digits of a number denote it. -/
theorem numeralValue_digitsOf (n : Nat) : numeralValue (digitsOf n) = n := by
  have hdigits : ∀ (ds : List Char) (m : Nat), (∀ d ∈ ds, d.isDigit) →
      (ds.map CodePoint.char).foldl (fun n c => 10 * n + (digitValue? c).getD 0) m =
        Nat.ofDigitChars 10 ds m := by
    intro ds
    induction ds with
    | nil => intro m _; rfl
    | cons d ds ih =>
      intro m hds
      obtain ⟨hd, hds⟩ := List.forall_mem_cons.1 hds
      have hvalue := digitValue?_of_isDigit ((CodePoint.isDigit_char d).trans hd)
      rw [List.map_cons, List.foldl_cons, hvalue, Nat.ofDigitChars_cons, ih _ hds]
      rfl
  rw [numeralValue, digitsOf, hdigits _ _ fun d hd =>
    Nat.isDigit_of_mem_toDigits (by decide) (by decide) hd]
  exact Nat.ofDigitChars_ten_toDigits

theorem length_digitsOf_le {n k : Nat} (h : n < .pow 10 k) (hk : 0 < k) :
    (digitsOf n).length ≤ k := by
  rw [digitsOf, List.length_map]
  exact (Nat.length_toDigits_le_iff (by decide) hk).2 h

/-- The number that the digits denote, if there are not too many. -/
theorem boundedNumeral?_digitsOf {n : Nat} (h : isWritable n = true) :
    boundedNumeral? (digitsOf n) = some n := by
  have hlength := length_digitsOf_le (of_decide_eq_true h) (by decide)
  rw [boundedNumeral?, if_pos hlength, numeralValue_digitsOf]

theorem isWritable_of_le {m n : Nat} (h : m ≤ n) (hn : isWritable n = true) :
    isWritable m = true :=
  decide_eq_true (Nat.lt_of_le_of_lt h (of_decide_eq_true hn))

end Text

namespace Json

/-- What may stand behind a number: a blank, a comma, a closing bracket or brace, or nothing. -/
def Ends (rest : Text) : Prop :=
  ∀ c, rest.head? = some c → isGap c = true ∨ c ∈ ([',', ']', '\x7d'] : List CodePoint)

theorem ends_nil : Ends [] := by
  intro c hc
  cases hc

theorem ends_cons {c : CodePoint} (h : isGap c = true ∨ c ∈ ([',', ']', '\x7d'] : List CodePoint))
    (rest : Text) : Ends (c :: rest) := by
  intro c' hc'
  cases hc'
  exact h

/-- The numbers of the code points that may stand behind a number. -/
theorem Ends.toNat_mem {rest : Text} (h : Ends rest) {c : CodePoint} (hc : rest.head? = some c) :
    c.toNat ∈ [32, 9, 10, 13, 44, 93, 125] := by
  have hcases := h c hc
  simp only [isGap, Bool.or_eq_true, beq_iff_eq, List.mem_cons, List.not_mem_nil,
    or_false] at hcases
  rcases hcases with ((((rfl | rfl) | rfl) | rfl) | (rfl | rfl | rfl)) <;> decide

variable {rest : Text}

theorem Ends.isDigit_eq_false (h : Ends rest) {c : CodePoint} (hc : rest.head? = some c) :
    c.isDigit = false := by
  have hmem := h.toNat_mem hc
  rw [CodePoint.isDigit]
  simp only [List.mem_cons, List.not_mem_nil, or_false] at hmem
  rcases hmem with h | h | h | h | h | h | h <;> rw [h] <;> rfl

theorem spanDigits_append {digits : Text} (hdigits : ∀ c ∈ digits, c.isDigit = true)
    (hrest : Ends rest) : spanDigits (digits ++ rest) = (digits, rest) := by
  rw [spanDigits, List.span_eq_takeWhile_dropWhile, List.takeWhile_append_of_pos hdigits,
    List.dropWhile_append_of_pos hdigits]
  cases rest with
  | nil => simp
  | cons c rest => simp [hrest.isDigit_eq_false rfl]

theorem wholePart?_digitsOf (n : Nat) (hrest : Ends rest) :
    wholePart? (Text.digitsOf n ++ rest) = some (Text.digitsOf n, rest) := by
  by_cases hzero : n = 0
  · subst hzero
    rfl
  · have hspan := spanDigits_append (fun _ => Text.isDigit_of_mem_digitsOf (n := n)) hrest
    have hhead := Text.head?_digitsOf_ne hzero
    obtain ⟨d, ds, hdigits⟩ := List.exists_cons_of_ne_nil (Text.digitsOf_ne_nil n)
    rw [hdigits] at hspan hhead ⊢
    rw [List.cons_append] at hspan ⊢
    unfold wholePart?
    split
    · rename_i r heq
      obtain ⟨rfl, -⟩ := List.cons.inj heq
      exact absurd rfl hhead
    · rw [hspan]
      rfl

theorem fractionPart_of_ends (hrest : Ends rest) : fractionPart rest = ([], rest) := by
  unfold fractionPart
  split
  · exact absurd (hrest.toNat_mem rfl) (by decide)
  · rfl

theorem exponentPart_of_ends (hrest : Ends rest) : exponentPart rest = (none, rest) := by
  cases rest with
  | nil => rfl
  | cons c r =>
    have hmem := hrest.toNat_mem (c := c) rfl
    have hletter : ¬ ((c = 'e' || c = 'E') = true) := by
      rw [Bool.or_eq_true, decide_eq_true_eq, decide_eq_true_eq]
      rintro (rfl | rfl)
      · exact absurd hmem (by decide)
      · exact absurd hmem (by decide)
    rw [exponentPart, if_neg hletter]

/-- The digits of a number are read as the number. -/
theorem unsigned?_digitsOf (negative : Bool) {n : Nat} (h : Text.isWritable n = true)
    (hrest : Ends rest) :
    unsigned? negative (Text.digitsOf n ++ rest) =
      some (.ok (.int (if negative then -(n : Int) else n), rest)) := by
  rw [unsigned?, wholePart?_digitsOf n hrest]
  simp only [Option.bind_eq_bind, Option.bind_some, fractionPart_of_ends hrest,
    exponentPart_of_ends hrest, Text.boundedNumeral?_digitsOf h]
  rfl

theorem afterWord?_eq_none {w c : CodePoint} (h : w ≠ c) (ws r : Text) :
    Text.afterWord? (w :: ws) (c :: r) = none := by
  rw [Text.afterWord?, if_neg h]

/-- The words that are values begin with other code points than digits. -/
theorem findSome?_words_of_isDigit {d : CodePoint} (hd : d.isDigit = true) (s : Text) :
    (words.findSome? fun (word, v) => (Text.afterWord? word (d :: s)).map fun r => (v, r)) =
      none := by
  have hne : ∀ w : CodePoint, w.isDigit = false → w ≠ d := by
    rintro w hw rfl
    rw [hd] at hw
    cases hw
  rw [List.findSome?_eq_none_iff]
  rintro ⟨word, v⟩ hentry
  obtain ⟨w, ws, hword, hw⟩ : ∃ w ws, word = w :: ws ∧ w.isDigit = false := by
    simp only [words, List.mem_cons, List.not_mem_nil, or_false, Prod.mk.injEq] at hentry
    rcases hentry with ⟨rfl, -⟩ | ⟨rfl, -⟩ | ⟨rfl, -⟩ | ⟨rfl, -⟩ | ⟨rfl, -⟩ | ⟨rfl, -⟩ <;>
      exact ⟨_, _, rfl, rfl⟩
  dsimp only
  rw [hword, afterWord?_eq_none (hne w hw)]
  rfl

/-- The one word with a sign goes on with a letter. -/
theorem findSome?_words_of_sign {d : CodePoint} (hd : d.isDigit = true) (s : Text) :
    (words.findSome? fun (word, v) =>
      (Text.afterWord? word (.char '-' :: d :: s)).map fun r => (v, r)) = none := by
  rw [List.findSome?_eq_none_iff]
  intro entry hentry
  have hletter : (.char 'I' : CodePoint) ≠ d := by
    rintro rfl
    cases hd
  simp only [words, List.mem_cons, List.not_mem_nil, or_false] at hentry
  rcases hentry with rfl | rfl | rfl | rfl | rfl | rfl
  all_goals first
    | rfl
    | exact congrArg (Option.map _) (if_neg hletter)

theorem atom_digitsOf {n : Nat} (h : Text.isWritable n = true) (hrest : Ends rest) :
    atom (Text.digitsOf n ++ rest) = .ok (.int n, rest) := by
  have hunsigned := unsigned?_digitsOf false h hrest
  have hdigit := fun c => Text.isDigit_of_mem_digitsOf (n := n) (c := c)
  obtain ⟨d, ds, hdigits⟩ := List.exists_cons_of_ne_nil (Text.digitsOf_ne_nil n)
  rw [hdigits, List.cons_append] at hunsigned
  rw [hdigits, List.cons_append, atom,
    findSome?_words_of_isDigit (hdigit d (hdigits ▸ List.mem_cons_self))]
  · dsimp only
    rw [hunsigned]
    rfl
  · intro r heq
    obtain ⟨rfl, -⟩ := List.cons.inj heq
    exact absurd (hdigit _ (hdigits ▸ List.mem_cons_self)) (by decide)

/-- **An integer is read back.** -/
theorem atom_int {n : Int} (h : Text.isWritable n.natAbs = true) (hrest : Ends rest) :
    atom (Text.ofString (toString n) ++ rest) = .ok (.int n, rest) := by
  cases n with
  | ofNat n =>
    have htext : Text.ofString (toString (Int.ofNat n)) = Text.digitsOf n :=
      Text.ofString_toString_nat n
    rw [htext]
    exact atom_digitsOf h hrest
  | negSucc n =>
    have htext : Text.ofString (toString (Int.negSucc n)) = .char '-' :: Text.digitsOf (n + 1) :=
      Text.ofString_toString_neg n
    have hunsigned := unsigned?_digitsOf true (n := n + 1) h hrest
    have hdigit := fun c => Text.isDigit_of_mem_digitsOf (n := n + 1) (c := c)
    obtain ⟨d, ds, hdigits⟩ := List.exists_cons_of_ne_nil (Text.digitsOf_ne_nil (n + 1))
    rw [hdigits, List.cons_append] at hunsigned
    rw [htext, hdigits, List.cons_append, List.cons_append, atom,
      findSome?_words_of_sign (hdigit d (hdigits ▸ List.mem_cons_self))]
    dsimp only
    rw [hunsigned]
    rfl

end Json

end ProjectAudit
