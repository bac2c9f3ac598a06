import ProjectAudit.Proofs.Text.Order
import ProjectAudit.Text.Blank
import ProjectAudit.Text.Caseless
import Mathlib.Data.List.Forall2
import Mathlib.Tactic.SplitIfs

/-!
# Letters without regard to case, and in lower case

There are two ways to disregard the case of a letter.  Letters can be compared by the representative
of their class, or each can be put into lower case first.  For a letter from `a` to `z` the two do
not always agree.  Four code points beyond ASCII are in the class of such a letter, and only the
Kelvin sign becomes that letter in lower case.  One of the others is a long `s`, and two are in the
class of `i`: U+0130, which becomes two code points, and U+0131, which stays as it is.

* `Text.mem_of_caselessKey_lt`: the four code points.
* `Text.lowerChar_of_sameLetter`: what becomes of one letter.
* `Text.lower_eq_iff_of_sameLetters`: the texts that become the word that they are the same as.
-/

namespace ProjectAudit.Text

/-! ## Letters -/

/-- A letter from `a` to `z` other than `s`, of which the long `s` would be a further exception: no
word that is looked for has one. -/
def IsWordLetter (c : CodePoint) : Prop :=
  97 ≤ c.toNat ∧ c.toNat ≤ 122 ∧ c ≠ 's'

/-- The dotted capital `I` or the dotless small one, the same as `i` without regard to case but not
in lower case. -/
def IsForeignI (c : CodePoint) : Prop :=
  c = '\u0130' ∨ c = '\u0131'

instance (c : CodePoint) : Decidable (IsWordLetter c) :=
  inferInstanceAs (Decidable (_ ∧ _))

instance (c : CodePoint) : Decidable (IsForeignI c) :=
  inferInstanceAs (Decidable (_ ∨ _))

variable {w c : CodePoint}

theorem caselessKey_of_isWordLetter (hw : IsWordLetter w) : caselessKey w = w.toNat := by
  obtain ⟨hlow, hhigh, -⟩ := hw
  have hascii : w.toNat < 128 := Nat.lt_of_le_of_lt hhigh (by decide)
  rw [caselessKey, if_pos hascii, CodePoint.toLower_of_gt (Nat.lt_of_lt_of_le (by decide) hlow)]

/-- The image of a run lies between that of its first code point and that of its last. -/
theorem runImage?_bounds {n m : Nat} {run : Nat × Nat × Nat × Nat} (h : runImage? n run = some m) :
    run.1 ≤ n ∧ n ≤ run.2.1 ∧ run.2.2.2 ≤ m ∧ m ≤ run.2.2.2 + (run.2.1 - run.1) := by
  obtain ⟨first, last, step, image⟩ := run
  rw [runImage?] at h
  obtain ⟨hmoved, himage⟩ := Option.ite_none_right_eq_some.1 h
  have hm := Option.some.inj himage
  simp only [Bool.and_eq_true, decide_eq_true_eq] at hmoved
  obtain ⟨⟨hfirst, hlast⟩, -⟩ := hmoved
  refine ⟨hfirst, hlast, ?_, ?_⟩ <;> dsimp only <;> omega

/-- The runs that lead into ASCII. -/
def nearRuns : List (Nat × Nat × Nat × Nat) :=
  caseRuns.filter fun (_, _, _, image) => image < 128

/-- Each of them has a single code point. -/
theorem nearRuns_single : ∀ run ∈ nearRuns, run.2.1 = run.1 ∧
    (run.1, run.2.2.2) ∈ [(0x130, 105), (0x131, 105), (0x17F, 115), (0x212A, 107)] := by
  decide +kernel

/-- The code points beyond ASCII that are the same as one of ASCII. -/
theorem mem_of_caselessKey_lt (hc : 128 ≤ c.toNat) (hkey : caselessKey c < 128) :
    (c.toNat, caselessKey c) ∈ [(0x130, 105), (0x131, 105), (0x17F, 115), (0x212A, 107)] := by
  rw [caselessKey, if_neg (Nat.not_lt.2 hc)] at hkey ⊢
  cases hrun : caseRuns.findSome? (runImage? c.toNat) with
  | none =>
    rw [hrun, Option.getD_none] at hkey
    exact absurd hc (Nat.not_le.2 hkey)
  | some m =>
    rw [hrun, Option.getD_some] at hkey
    obtain ⟨run, hmem, himage⟩ := List.exists_of_findSome?_eq_some hrun
    obtain ⟨hfirst, hlast, hlow, hhigh⟩ := runImage?_bounds himage
    have hnear : run ∈ nearRuns :=
      List.mem_filter.2 ⟨hmem, decide_eq_true (Nat.lt_of_le_of_lt hlow hkey)⟩
    obtain ⟨hsingle, hknown⟩ := nearRuns_single run hnear
    have hpoint : c.toNat = run.1 ∧ m = run.2.2.2 := by omega
    rw [Option.getD_some, hpoint.1, hpoint.2]
    exact hknown

/-- **What becomes of one letter.**  What is the same as a letter of a word becomes that letter in
lower case, unless it is a foreign `i`. -/
theorem lowerChar_of_sameLetter (hw : IsWordLetter w) (h : sameLetter w c = true) :
    lowerChar c = [w] ∨ w = 'i' ∧ IsForeignI c := by
  have hkey : caselessKey c = w.toNat := by
    rw [← caselessKey_of_isWordLetter hw]
    exact (beq_iff_eq.1 h).symm
  by_cases hc : c.toNat < 128
  · have hlower : c.toLower = w := by
      rw [caselessKey, if_pos hc] at hkey
      exact CodePoint.toNat_inj.1 hkey
    refine .inl ?_
    rw [lowerChar, if_neg, if_neg, hlower]
    all_goals
      rw [beq_iff_eq]
      omega
  · obtain ⟨-, hhigh, hs⟩ := hw
    have hnear := mem_of_caselessKey_lt (Nat.le_of_not_lt hc)
      (hkey ▸ Nat.lt_of_le_of_lt hhigh (by decide))
    have hpoint : ∀ {p : CodePoint} {d : Char}, p.toNat = d.toNat → p = .char d :=
      fun hp => CodePoint.toNat_inj.1 hp
    rw [hkey] at hnear
    simp only [List.mem_cons, Prod.mk.injEq, List.not_mem_nil, or_false] at hnear
    rcases hnear with ⟨hn, hm⟩ | ⟨hn, hm⟩ | ⟨-, hm⟩ | ⟨hn, hm⟩
    · exact .inr ⟨hpoint hm, .inl (hpoint hn)⟩
    · exact .inr ⟨hpoint hm, .inr (hpoint hn)⟩
    · exact absurd (hpoint hm) hs
    · obtain rfl : c = .char '\u212A' := hpoint hn
      obtain rfl : w = .char 'k' := hpoint hm
      exact .inl (by decide)

/-- A foreign `i` leaves something in lower case that is no letter of a word. -/
theorem exists_of_isForeignI (hc : IsForeignI c) : ∃ d ∈ lowerChar c, ¬ IsWordLetter d := by
  rcases hc with rfl | rfl
  · exact ⟨.char '\u0307', by decide, by decide⟩
  · exact ⟨.char '\u0131', by decide, by decide⟩

/-! ## Words in lower case -/

/-- What may become of that which is the same as a letter. -/
def lowerForms (w : CodePoint) : List Text :=
  if w = 'i' then ["i", "i\u0307", "\u0131"] else [[w]]

/-- What may become of a text that is the same as a word. -/
def lowerFormsOf : Text → List Text
  | [] => [[]]
  | w :: word => (lowerForms w).flatMap fun front => (lowerFormsOf word).map (front ++ ·)

theorem lowerChar_mem_lowerForms (hw : IsWordLetter w) (h : sameLetter w c = true) :
    lowerChar c ∈ lowerForms w := by
  rcases lowerChar_of_sameLetter hw h with hself | ⟨rfl, rfl | rfl⟩
  · rw [hself, lowerForms]
    split_ifs with hi
    · exact hi ▸ List.mem_cons_self
    · exact List.mem_cons_self
  · decide
  · decide

variable {word text : Text}

theorem lower_mem_lowerFormsOf (hword : ∀ w ∈ word, IsWordLetter w)
    (h : List.Forall₂ (fun w c => sameLetter w c = true) word text) :
    lower text ∈ lowerFormsOf word := by
  induction h with
  | nil => exact List.mem_cons_self
  | @cons w c word text hletter hrest ih =>
    obtain ⟨hw, hword⟩ := List.forall_mem_cons.1 hword
    exact List.mem_flatMap.2 ⟨lowerChar c, lowerChar_mem_lowerForms hw hletter,
      List.mem_map.2 ⟨lower text, ih hword, rfl⟩⟩

/-- **What becomes of a word.**  A text that is the same as a word without regard to case becomes
that word in lower case exactly if there is no foreign `i` in it. -/
theorem lower_eq_iff_of_sameLetters (hword : ∀ w ∈ word, IsWordLetter w)
    (h : List.Forall₂ (fun w c => sameLetter w c = true) word text) :
    lower text = word ↔ ∀ c ∈ text, ¬ IsForeignI c := by
  constructor
  · rintro rfl c hc hforeign
    obtain ⟨d, hd, hother⟩ := exists_of_isForeignI hforeign
    exact hother (hword d (List.mem_flatMap.2 ⟨c, hc, hd⟩))
  · intro hown
    induction h with
    | nil => rfl
    | @cons w c word text hletter hrest ih =>
      obtain ⟨hw, hword⟩ := List.forall_mem_cons.1 hword
      obtain ⟨hc, hown⟩ := List.forall_mem_cons.1 hown
      have hself : lowerChar c = [w] :=
        (lowerChar_of_sameLetter hw hletter).resolve_right fun hforeign => hc hforeign.2
      show lowerChar c ++ lower text = w :: word
      rw [hself, ih hword hown, List.singleton_append]

end ProjectAudit.Text
