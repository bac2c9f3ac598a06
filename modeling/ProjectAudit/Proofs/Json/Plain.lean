import ProjectAudit.Json.Plain
import ProjectAudit.Proofs.Json.Numerals

/-!
# Values told by their texts

The text of a value does not always tell the value: `"1"` and `1` have one text.  Words are told
apart by their letters.  Infinity and the absence of a number aside, the letters of a number are
the `e` of its exponent alone, and in no number there is an `r`; `None`, `True` and `False` have
capitals, and lists and objects begin with a bracket.

* `Json.eq_str_of_plainText`: a word with an `r` is the text of no other value than itself.
-/

namespace ProjectAudit.Json

theorem not_mem_toDigits (n : Nat) : 'r' ∉ Nat.toDigits 10 n := by
  intro hmem
  have hdigit := Nat.isDigit_of_mem_toDigits (by decide) (by decide) hmem
  cases hdigit

theorem not_mem_digits (f : Binary64.Format) {ds : List Char} (hds : 'r' ∉ ds) (e : Int) :
    'r' ∉ f.digits ds e := by
  have htake : ∀ n, 'r' ∉ ds.take n := fun n hmem => hds (List.mem_of_mem_take hmem)
  have hdrop : ∀ n, 'r' ∉ ds.drop n := fun n hmem => hds (List.mem_of_mem_drop hmem)
  unfold Binary64.Format.digits
  split
  · split
    · simp [hds]
    · dsimp only
      split <;> simp [htake, hdrop]
  · have hsign : 'r' ≠ (if e < 0 then '-' else '+') := by split <;> decide
    dsimp only
    split <;> simp_all [not_mem_toDigits]

/-- No number has an `r` in its text. -/
theorem not_mem_numberText (x : Binary64) : 'r' ∉ (Binary64.plain.text x).toList := by
  cases x with
  | nan => decide
  | infinite negative => cases negative <;> decide
  | finite negative m e =>
    have hshortest : ∀ n, 'r' ∉ Binary64.dropLastZeros (Nat.toDigits 10 n) := fun n hmem =>
      not_mem_toDigits n (List.mem_reverse.1
        ((List.dropWhile_sublist _).subset (List.mem_reverse.1 hmem)))
    have hbody : ∀ body : List Char, 'r' ∉ body →
        'r' ∉ ((if negative then "-" else "") ++ String.ofList body).toList := by
      intro body hbody
      cases negative <;> simpa using hbody
    rw [Binary64.Format.text]
    apply hbody
    dsimp only
    split
    · exact not_mem_digits _ (by decide) _
    · exact not_mem_digits _ (hshortest _) _

theorem not_mem_ofInt (n : Int) : .char 'r' ∉ Text.ofInt n := by
  have hdigits : ∀ m, .char 'r' ∉ Text.digitsOf m := fun m hmem => by
    cases Text.isDigit_of_mem_digitsOf hmem
  cases n with
  | ofNat m =>
    have htext : Text.ofInt (Int.ofNat m) = Text.digitsOf m := Text.ofString_toString_nat m
    rw [htext]
    exact hdigits m
  | negSucc m =>
    have htext : Text.ofInt (Int.negSucc m) = .char '-' :: Text.digitsOf (m + 1) :=
      Text.ofString_toString_neg m
    rw [htext, List.mem_cons, not_or]
    exact ⟨by decide, hdigits _⟩

/-- **A text with an `r`** that begins neither with the capital of a word nor with a bracket is the
text of that string only. -/
theorem eq_str_of_plainText {v : Json} {t : Text} (h : v.plainText = t) (hr : .char 'r' ∈ t)
    (hhead : ∀ c ∈ (['N', 'T', 'F', '[', '\x7b'] : List CodePoint), t.head? ≠ some c) :
    v = .str t := by
  have hother : ∀ c r, v.plainText = c :: r → c ∉ (['N', 'T', 'F', '[', '\x7b'] : List CodePoint) :=
    fun c r htext hc => hhead c hc (by rw [← h, htext, List.head?_cons])
  cases v with
  | null => exact absurd (by decide) (hother 'N' _ rfl)
  | bool b =>
    cases b with
    | false => exact absurd (by decide) (hother 'F' _ rfl)
    | true => exact absurd (by decide) (hother 'T' _ rfl)
  | int n =>
    have htext : Text.ofInt n = t := h
    exact absurd (htext ▸ hr) (not_mem_ofInt n)
  | float x =>
    have htext : Text.ofString (Binary64.plain.text x) = t := h
    rw [← htext, Text.ofString] at hr
    obtain ⟨c, hc, hchar⟩ := List.mem_map.1 hr
    cases hchar
    exact absurd hc (not_mem_numberText x)
  | str s => exact congrArg Json.str h
  | arr items => exact absurd (by decide) (hother '[' _ rfl)
  | obj fields => exact absurd (by decide) (hother '\x7b' _ rfl)

end ProjectAudit.Json
