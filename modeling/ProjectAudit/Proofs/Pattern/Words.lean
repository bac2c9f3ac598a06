import ProjectAudit.Pattern.Basic
import ProjectAudit.Proofs.Text.Caseless
import Mathlib.Data.List.Basic

/-!
# Patterns for words

A pattern for one word accepts the names that begin with it, letter by letter and without regard to
case.  A pattern for several words should accept the names that begin with one of them.  It does,
but for one case: what all words begin with is taken out in front, and if one letter is left of each
of them, the letters are read as one set.  A set does not know the small letter of a capital beyond
U+FFFF, so such a word is not heeded.

A way to match is given what has to match behind it, and succeeds if it leaves a rest for which that
succeeds.  So what an expression does is said by a relation between a text and what is left of it.

* `Expr.Leaves`: the rests that an expression leaves, with a lemma for each way to build one.
* `Text.coversCaseless_iff`: what a letter of a set covers.
* `Pattern.starting_accepts_iff`, `Pattern.startingWithAny_accepts_iff`: the names that the patterns
  accept.
-/

namespace ProjectAudit

/-! ## Words at the start of a text -/

namespace Text

/-- The text begins with the word, letter by letter without regard to case, and the rest is what is
left of it. -/
def LeavesBehind (word text rest : Text) : Prop :=
  ∃ front, text = front ++ rest ∧ List.Forall₂ (fun a b => sameLetter a b = true) word front

/-- The name begins with the word, letter by letter without regard to case. -/
def StartsLike (word name : Text) : Prop :=
  ∃ rest, LeavesBehind word name rest

/-- A capital beyond U+FFFF. -/
def IsFarCapital (c : CodePoint) : Prop :=
  0xFFFF < c.toNat ∧ caselessKey c ≠ c.toNat

instance (c : CodePoint) : Decidable (IsFarCapital c) :=
  inferInstanceAs (Decidable (_ ∧ _))

/-- The word is one of several that differ in their last letters alone, and its own last letter is a
capital beyond U+FFFF. -/
def Unheeded (words : List Text) (word : Text) : Prop :=
  ∃ common letter, word = common ++ [letter] ∧ IsFarCapital letter ∧
    (∀ other ∈ words, ∃ last, other = common ++ [last]) ∧ ∃ other ∈ words, other ≠ word

theorem leavesBehind_nil {text rest : Text} : LeavesBehind [] text rest ↔ rest = text := by
  constructor
  · rintro ⟨front, rfl, hfront⟩
    cases hfront
    rfl
  · rintro rfl
    exact ⟨[], rfl, .nil⟩

theorem leavesBehind_cons {c : CodePoint} {word text rest : Text} :
    LeavesBehind (c :: word) text rest ↔
      ∃ d behind, text = d :: behind ∧ sameLetter c d = true ∧ LeavesBehind word behind rest := by
  constructor
  · rintro ⟨front, rfl, hfront⟩
    cases hfront with
    | @cons _ d _ front hletter hrest => exact ⟨d, front ++ rest, rfl, hletter, front, rfl, hrest⟩
  · rintro ⟨d, behind, rfl, hletter, front, rfl, hfront⟩
    exact ⟨d :: front, rfl, .cons hletter hfront⟩

/-- Which words are unheeded depends on which words there are, not on their order. -/
theorem unheeded_congr {words words' : List Text} (h : ∀ word, word ∈ words ↔ word ∈ words')
    (word : Text) : Unheeded words word ↔ Unheeded words' word := by
  simp only [Unheeded, h]

/-- A word without capitals beyond U+FFFF is heeded, whichever words stand beside it. -/
theorem not_unheeded_of_near {words : List Text} {word : Text}
    (hnear : ∀ letter ∈ word, ¬ IsFarCapital letter) : ¬ Unheeded words word := by
  rintro ⟨common, letter, rfl, hfar, -⟩
  exact hnear letter (List.mem_append_right _ List.mem_cons_self) hfar

/-! ## Letters of a set -/

/-- The runs that lead beyond U+FFFF. -/
def farRuns : List (Nat × Nat × Nat × Nat) :=
  caseRuns.filter fun (first, last, _, image) => 0xFFFF < image + (last - first)

/-- Where a run leads to beyond U+FFFF, no code point is moved. -/
theorem farRuns_apart : ∀ run ∈ farRuns, ∀ other ∈ caseRuns,
    other.2.1 < run.2.2.2 ∨ run.2.2.2 + (run.2.1 - run.1) < other.1 := by
  decide +kernel

theorem toNat_toLower_lt {c : CodePoint} (h : c.toNat < 128) : c.toLower.toNat < 160 := by
  cases c with
  | surrogate offset => exact absurd h (by rw [CodePoint.toNat]; omega)
  | char c =>
    have hc : c.val.toNat < 128 := h
    show c.toLower.val.toNat < 160
    delta Char.toLower
    split
    · show (c.val + ('a'.val - 'A'.val)).toNat < 160
      rw [UInt32.toNat_add]
      exact Nat.lt_of_le_of_lt (Nat.mod_le _ _) (Nat.add_lt_add_of_lt_of_le hc (Nat.le_refl 32))
    · omega

/-- Beyond U+FFFF the representative of a class is its own representative. -/
theorem caselessKey_of_far {c letter : CodePoint} (hfar : 0xFFFF < letter.toNat)
    (hkey : caselessKey c = letter.toNat) : caselessKey letter = letter.toNat := by
  rw [caselessKey] at hkey
  split at hkey
  · rename_i hascii
    have hlower := toNat_toLower_lt hascii
    omega
  · cases hrun : caseRuns.findSome? (runImage? c.toNat) with
    | none =>
      rw [hrun, Option.getD_none] at hkey
      obtain rfl := CodePoint.toNat_inj.1 hkey
      rw [caselessKey, if_neg (by omega), hrun, Option.getD_none]
    | some m =>
      rw [hrun, Option.getD_some] at hkey
      subst hkey
      obtain ⟨run, hmem, himage⟩ := List.exists_of_findSome?_eq_some hrun
      obtain ⟨-, -, hlow, hhigh⟩ := runImage?_bounds himage
      have hbeyond : run ∈ farRuns :=
        List.mem_filter.2 ⟨hmem, decide_eq_true (Nat.lt_of_lt_of_le hfar hhigh)⟩
      have hnone : caseRuns.findSome? (runImage? letter.toNat) = none := by
        refine List.findSome?_eq_none_iff.2 fun other hother => ?_
        cases hmoved : runImage? letter.toNat other with
        | none => rfl
        | some n =>
          obtain ⟨hfirst, hlast, -, -⟩ := runImage?_bounds hmoved
          rcases farRuns_apart run hbeyond other hother with hbefore | hbehind <;> omega
      rw [caselessKey, if_neg (by omega), hnone, Option.getD_none]

/-- **A letter of a set** covers what is the same letter without regard to case, unless it is a
capital beyond U+FFFF, which covers nothing. -/
theorem coversCaseless_iff {letter c : CodePoint} :
    coversCaseless letter c = true ↔ sameLetter letter c = true ∧ ¬ IsFarCapital letter := by
  rw [coversCaseless, IsFarCapital, sameLetter, beq_iff_eq]
  split
  · rename_i hnear
    rw [beq_iff_eq]
    exact (and_iff_left fun hfar => Nat.not_lt.2 hnear hfar.1).symm
  · rename_i hfar
    rw [beq_iff_eq]
    constructor
    · intro hkey
      have hown := caselessKey_of_far (Nat.lt_of_not_le hfar) hkey
      exact ⟨hown.trans hkey.symm, fun hcapital => hcapital.2 hown⟩
    · rintro ⟨hsame, hcapital⟩
      have hown : caselessKey letter = letter.toNat :=
        Classical.byContradiction fun hne => hcapital ⟨Nat.lt_of_not_le hfar, hne⟩
      exact hsame.symm.trans hown

end Text

/-! ## What an expression leaves -/

/-- The expression leaves those rests of a text that the relation holds of: it matches with
something behind it if that succeeds on one of them. -/
def Expr.Leaves (e : Expr) (caseless : Bool) (total : Nat) (leaves : Text → Text → Prop) : Prop :=
  ∀ next text, (e.attempt caseless total next text).isSome = true ↔
    ∃ rest, leaves text rest ∧ (next rest).isSome = true

namespace Expr

variable {e first second : Expr} {caseless : Bool} {total : Nat}
  {leaves leaves' leaves₁ leaves₂ : Text → Text → Prop}

theorem Leaves.congr (h : e.Leaves caseless total leaves)
    (hsame : ∀ text rest, leaves text rest ↔ leaves' text rest) :
    e.Leaves caseless total leaves' := by
  intro next text
  rw [h next text]
  simp only [hsame]

theorem leaves_empty : empty.Leaves caseless total fun text rest => rest = text := by
  intro next text
  rw [attempt]
  simp

/-- One code point is taken. -/
theorem leaves_oneOf {members : List SetItem} :
    (oneOf false members).Leaves caseless total fun text rest =>
      ∃ c, text = c :: rest ∧ coveredBy caseless members c = true := by
  intro next text
  rw [attempt]
  cases text with
  | nil => simp [Way.one]
  | cons c text =>
    rw [Way.one]
    cases hcovered : coveredBy caseless members c <;> simp [hcovered]

/-- Nothing is taken, at the start of the name alone. -/
theorem leaves_textStart :
    textStart.Leaves caseless total fun text rest => rest = text ∧ text.length = total := by
  intro next text
  rw [attempt]
  split
  · rename_i hstart
    simp [hstart]
  · rename_i hstart
    simp [hstart]

theorem leaves_seq (hfirst : first.Leaves caseless total leaves₁)
    (hsecond : second.Leaves caseless total leaves₂) :
    (seq first second).Leaves caseless total fun text rest =>
      ∃ behind, leaves₁ text behind ∧ leaves₂ behind rest := by
  intro next text
  rw [attempt, hfirst]
  constructor
  · rintro ⟨behind, htaken, hnext⟩
    obtain ⟨rest, hleft, hsome⟩ := (hsecond next behind).1 hnext
    exact ⟨rest, ⟨behind, htaken, hleft⟩, hsome⟩
  · rintro ⟨rest, ⟨behind, htaken, hleft⟩, hsome⟩
    exact ⟨behind, htaken, (hsecond next behind).2 ⟨rest, hleft, hsome⟩⟩

theorem leaves_choice (hfirst : first.Leaves caseless total leaves₁)
    (hsecond : second.Leaves caseless total leaves₂) :
    (choice first second).Leaves caseless total fun text rest =>
      leaves₁ text rest ∨ leaves₂ text rest := by
  intro next text
  have heither : (attempt caseless total (choice first second) next text).isSome = true ↔
      (attempt caseless total first next text).isSome = true ∨
        (attempt caseless total second next text).isSome = true := by
    rw [attempt]
    cases attempt caseless total first next text <;> simp
  rw [heither, hfirst, hsecond, ← exists_or]
  simp only [or_and_right]

end Expr

/-! ## Words one by one -/

namespace Item

open Text Pattern ProjectAudit.Expr

variable {c : CodePoint} {word : Text} {words : List Text} {total : Nat}

theorem ofLetter_inj {d : CodePoint} : ofLetter c = ofLetter d ↔ c = d := by
  constructor
  · intro heq
    have hexpr : Expr.oneOf false [.letter c] = .oneOf false [.letter d] := congrArg Item.expr heq
    simpa using hexpr
  · exact congrArg ofLetter

/-- A letter is taken without regard to case. -/
theorem leaves_ofLetter :
    (ofLetter c).expr.Leaves true total fun text rest =>
      ∃ d, text = d :: rest ∧ sameLetter c d = true :=
  leaves_oneOf

theorem leaves_lettersOf (word : Text) (total : Nat) :
    (sequence (lettersOf word)).Leaves true total (LeavesBehind word) := by
  induction word with
  | nil => exact leaves_empty.congr fun _ _ => leavesBehind_nil.symm
  | cons c word ih =>
    refine (leaves_seq leaves_ofLetter ih).congr fun text rest => ?_
    rw [leavesBehind_cons]
    constructor
    · rintro ⟨behind, ⟨d, rfl, hletter⟩, hrest⟩
      exact ⟨d, behind, rfl, hletter, hrest⟩
    · rintro ⟨d, behind, rfl, hletter, hrest⟩
      exact ⟨behind, ⟨d, rfl, hletter⟩, hrest⟩

theorem leaves_choiceOf (word : Text) (words : List Text) (total : Nat) :
    (choiceOf (lettersOf word) (words.map lettersOf)).Leaves true total fun text rest =>
      ∃ u ∈ word :: words, LeavesBehind u text rest := by
  induction words generalizing word with
  | nil => exact (leaves_lettersOf word total).congr fun _ _ => by simp
  | cons second words ih =>
    refine (leaves_choice (leaves_lettersOf word total) (ih second)).congr fun text rest => ?_
    simp only [List.exists_mem_cons_iff]

/-! ## Words that begin with the same letter -/

theorem isShared_iff :
    isShared (ofLetter c) (words.map lettersOf) = true ↔ ∀ other ∈ words, other.head? = some c := by
  have hkind : ((ofLetter c).kind == ItemKind.test || (ofLetter c).kind == .place) = true := rfl
  rw [isShared, hkind, Bool.true_and, List.all_eq_true, List.forall_mem_map]
  refine forall₂_congr fun other _ => ?_
  cases other with
  | nil => simp [lettersOf]
  | cons d other => simp [lettersOf, ofLetter_inj]

/-- Words that begin with the same letter are that letter in front of their rests. -/
theorem exists_eq_map_cons (h : ∀ other ∈ words, other.head? = some c) :
    ∃ tails : List Text, words = tails.map (c :: ·) := by
  refine ⟨words.map List.tail, ?_⟩
  calc words = words.map id := (List.map_id words).symm
    _ = words.map ((c :: ·) ∘ List.tail) :=
      List.map_congr_left fun other hother => (List.cons_head?_tail (h other hother)).symm
    _ = (words.map List.tail).map (c :: ·) := List.map_map.symm

theorem not_unheeded_of_nil_mem (hnil : [] ∈ words) : ¬ Unheeded words word := by
  rintro ⟨common, letter, -, -, hall, -⟩
  obtain ⟨last, hlast⟩ := hall [] hnil
  exact List.append_ne_nil_of_right_ne_nil _ (List.cons_ne_nil _ _) hlast.symm

/-- A letter in front of all words makes no difference. -/
theorem unheeded_map_cons :
    Unheeded (words.map (c :: ·)) (c :: word) ↔ Unheeded words word := by
  constructor
  · rintro ⟨common, letter, hword, hfar, hall, other, hother, hne⟩
    obtain ⟨behind, hbehind, rfl⟩ := List.mem_map.1 hother
    rw [List.forall_mem_map] at hall
    cases common with
    | nil =>
      -- the words would be this letter alone, all of them
      obtain ⟨last, hlast⟩ := hall behind hbehind
      rw [hlast, hword] at hne
      rw [(List.cons.inj hlast).1.symm, (List.cons.inj hword).1] at hne
      exact absurd rfl hne
    | cons first common =>
      obtain ⟨rfl, rfl⟩ := List.cons.inj hword
      refine ⟨common, letter, rfl, hfar, fun other hother => ?_, behind, hbehind,
        fun heq => hne (congrArg (c :: ·) heq)⟩
      obtain ⟨last, hlast⟩ := hall other hother
      exact ⟨last, (List.cons.inj hlast).2⟩
  · rintro ⟨common, letter, rfl, hfar, hall, other, hother, hne⟩
    refine ⟨c :: common, letter, rfl, hfar, List.forall_mem_map.2 fun other hother => ?_,
      c :: other, List.mem_map_of_mem hother, fun heq => hne (List.cons.inj heq).2⟩
    obtain ⟨last, rfl⟩ := hall other hother
    exact ⟨last, rfl⟩

/-! ## Words of one letter -/

theorem members?_lettersOf {found : List SetItem} :
    members? (lettersOf word) = some found ↔
      ∃ letter, word = [letter] ∧ found = [.letter letter] := by
  match word with
  | [] => simp [lettersOf, members?]
  | [letter] =>
    have hmembers : members? (lettersOf [letter]) = some [.letter letter] := rfl
    rw [hmembers]
    simp [eq_comm]
  | first :: second :: word => simp [lettersOf, members?]

/-- Words are read as one set if each of them is one letter. -/
theorem mapM_members?_eq_some {found : List (List SetItem)}
    (h : (words.map lettersOf).mapM members? = some found) :
    ∃ letters : List CodePoint, words = letters.map ([·]) ∧
      found = letters.map fun letter => [.letter letter] := by
  induction words generalizing found with
  | nil =>
    obtain rfl : found = [] := by simpa [eq_comm] using h
    exact ⟨[], rfl, rfl⟩
  | cons word words ih =>
    rw [List.map_cons, List.mapM_cons] at h
    obtain ⟨first, hfirst, h⟩ := Option.bind_eq_some_iff.1 h
    obtain ⟨others, hothers, h⟩ := Option.bind_eq_some_iff.1 h
    obtain rfl := Option.some.inj h
    obtain ⟨letter, rfl, rfl⟩ := members?_lettersOf.1 hfirst
    obtain ⟨letters, rfl, rfl⟩ := ih hothers
    exact ⟨letter :: letters, rfl, rfl⟩

theorem exists_mapM_members? (h : ∀ word ∈ words, ∃ letter, word = [letter]) :
    ∃ found, (words.map lettersOf).mapM members? = some found := by
  induction words with
  | nil => exact ⟨[], rfl⟩
  | cons word words ih =>
    obtain ⟨⟨letter, rfl⟩, hrest⟩ := List.forall_mem_cons.1 h
    obtain ⟨found, hfound⟩ := ih hrest
    refine ⟨[.letter letter] :: found, ?_⟩
    rw [List.map_cons, List.mapM_cons, hfound, members?_lettersOf.2 ⟨letter, rfl, rfl⟩]
    rfl

/-- Of words of one letter that are not all the same, those are unheeded whose letter is a capital
beyond U+FFFF. -/
theorem unheeded_singleton_iff (hall : ∀ other ∈ words, ∃ last, other = [last])
    (hother : ∃ other ∈ words, other ≠ [c]) : Unheeded words [c] ↔ IsFarCapital c := by
  constructor
  · rintro ⟨common, letter, hword, hfar, -⟩
    obtain ⟨-, hletter⟩ := List.append_inj' (show [] ++ [c] = common ++ [letter] from hword) rfl
    obtain rfl := List.singleton_inj.1 hletter
    exact hfar
  · exact fun hfar => ⟨[], c, rfl, hfar, hall, hother⟩

/-- A set of several letters covers what one of them covers. -/
theorem coveredBy_letters {letters : List CodePoint} {d : CodePoint}
    (hseveral : ∀ l, ∃ other ∈ letters, other ≠ l) :
    coveredBy true ((letters.map SetItem.letter).eraseDups) d = true ↔
      ∃ l ∈ letters, coversCaseless l d = true := by
  have hmem : ∀ member, member ∈ (letters.map SetItem.letter).eraseDups ↔
      ∃ l ∈ letters, SetItem.letter l = member := fun member => by
    rw [List.mem_eraseDups, List.mem_map]
  generalize (letters.map SetItem.letter).eraseDups = members at hmem
  have hany : coveredBy true members d = members.any fun member => member.covers true d := by
    rw [coveredBy]
    rintro l rfl
    obtain ⟨other, hother, hne⟩ := hseveral l
    have hsame := List.mem_singleton.1 ((hmem (.letter other)).2 ⟨other, hother, rfl⟩)
    exact hne (SetItem.letter.inj hsame)
  rw [hany, List.any_eq_true]
  constructor
  · rintro ⟨member, hmember, hcovers⟩
    obtain ⟨l, hl, rfl⟩ := (hmem member).1 hmember
    exact ⟨l, hl, hcovers⟩
  · rintro ⟨l, hl, hcovers⟩
    exact ⟨.letter l, (hmem _).2 ⟨l, hl, rfl⟩, hcovers⟩

/-! ## Several words -/

section Several

variable (hshared : isShared (ofLetter c) (words.map lettersOf) = false)

include hshared

/-- Words that do not all begin with one letter are not all the same. -/
theorem exists_ne_of_not_shared (other : Text) : ∃ u ∈ (c :: word) :: words, u ≠ other := by
  refine Classical.byContradiction fun hnone => ?_
  have hall : ∀ u ∈ (c :: word) :: words, u = other := fun u hu =>
    Classical.byContradiction fun hne => hnone ⟨u, hu, hne⟩
  have heads : ∀ u ∈ words, u.head? = some c := fun u hu => by
    rw [hall u (List.mem_cons_of_mem _ hu), ← hall _ List.mem_cons_self]
    rfl
  rw [isShared_iff.2 heads] at hshared
  cases hshared

/-- Words that do not all begin with one letter are all heeded, unless each is one letter. -/
theorem not_unheeded_of_not_shared (hletters : ¬ ∀ u ∈ (c :: word) :: words, ∃ l, u = [l])
    (other : Text) : ¬ Unheeded ((c :: word) :: words) other := by
  rintro ⟨common, letter, -, -, hall, -⟩
  cases common with
  | nil => exact hletters hall
  | cons first common =>
    obtain ⟨last, hlast⟩ := hall _ List.mem_cons_self
    have heads : ∀ u ∈ words, u.head? = some c := by
      intro u hu
      obtain ⟨last', rfl⟩ := hall u (List.mem_cons_of_mem _ hu)
      exact congrArg some (List.cons.inj hlast).1.symm
    rw [isShared_iff.2 heads] at hshared
    cases hshared

/-- Letters that are read as one set take one of those that are heeded. -/
theorem leaves_letters {letters : List CodePoint}
    (hwords : (c :: word) :: words = letters.map ([·])) :
    (ofSet false ((letters.map fun l => [SetItem.letter l]).flatten)).expr.Leaves true total
      fun text rest => ∃ u ∈ (c :: word) :: words, ¬ Unheeded ((c :: word) :: words) u ∧
        LeavesBehind u text rest := by
  have hflat : (letters.map fun l => [SetItem.letter l]).flatten = letters.map .letter := by
    rw [← List.flatMap_def]
    exact List.flatMap_pure_eq_map _ _
  have hdifferent : ∀ other, ∃ u ∈ letters.map ([·]), u ≠ other := fun other =>
    hwords ▸ exists_ne_of_not_shared hshared other
  have hseveral : ∀ l, ∃ other ∈ letters, other ≠ l := by
    intro l
    obtain ⟨u, hu, hne⟩ := hdifferent [l]
    obtain ⟨other, hother, rfl⟩ := List.mem_map.1 hu
    exact ⟨other, hother, fun heq => hne (congrArg ([·]) heq)⟩
  have hsingle : ∀ u ∈ letters.map ([·]), ∃ last : CodePoint, u = [last] := by
    rintro u hu
    obtain ⟨l, -, rfl⟩ := List.mem_map.1 hu
    exact ⟨l, rfl⟩
  rw [hwords, hflat]
  refine leaves_oneOf.congr fun text rest => ?_
  simp only [coveredBy_letters hseveral, coversCaseless_iff]
  constructor
  · rintro ⟨d, rfl, l, hl, hsame, hheeded⟩
    refine ⟨[l], List.mem_map_of_mem hl, ?_, ?_⟩
    · rwa [unheeded_singleton_iff hsingle (hdifferent [l])]
    · exact leavesBehind_cons.2 ⟨d, rest, rfl, hsame, leavesBehind_nil.2 rfl⟩
  · rintro ⟨u, hu, hheeded, hleft⟩
    obtain ⟨l, hl, rfl⟩ := List.mem_map.1 hu
    obtain ⟨d, behind, rfl, hsame, hrest⟩ := leavesBehind_cons.1 hleft
    obtain rfl := leavesBehind_nil.1 hrest
    rw [unheeded_singleton_iff hsingle (hdifferent [l])] at hheeded
    exact ⟨d, rfl, l, hl, hsame, hheeded⟩

/-- Words that do not all begin with one letter are a set or a choice. -/
theorem leaves_not_shared :
    ((commonSet? (((c :: word) :: words).map lettersOf)).getD
      ⟨choiceOf (lettersOf (c :: word)) (words.map lettersOf), .other⟩).expr.Leaves true total
      fun text rest => ∃ u ∈ (c :: word) :: words, ¬ Unheeded ((c :: word) :: words) u ∧
        LeavesBehind u text rest := by
  rw [commonSet?]
  cases hfound : (((c :: word) :: words).map lettersOf).mapM members? with
  | some found =>
    obtain ⟨letters, hwords, rfl⟩ := mapM_members?_eq_some hfound
    exact leaves_letters hshared hwords
  | none =>
    have hletters : ¬ ∀ u ∈ (c :: word) :: words, ∃ l, u = [l] := by
      intro hall
      obtain ⟨found, hsome⟩ := exists_mapM_members? hall
      cases hfound.symm.trans hsome
    refine (leaves_choiceOf (c :: word) words total).congr fun text rest => ?_
    refine exists_congr fun u => and_congr_right fun _ => ?_
    exact (and_iff_right (not_unheeded_of_not_shared hshared hletters u)).symm

end Several

/-- **Alternatives of words** leave what is left behind one of the words that are heeded. -/
theorem leaves_alternatives (word : Text) (words : List Text) (total : Nat) :
    (sequence (alternatives (lettersOf word) (words.map lettersOf))).Leaves true total
      fun text rest => ∃ u ∈ word :: words, ¬ Unheeded (word :: words) u ∧
        LeavesBehind u text rest := by
  induction word generalizing words with
  | nil =>
    refine (leaves_seq (leaves_choiceOf [] words total) leaves_empty).congr fun text rest => ?_
    constructor
    · rintro ⟨_, ⟨u, hu, hleft⟩, rfl⟩
      exact ⟨u, hu, not_unheeded_of_nil_mem List.mem_cons_self, hleft⟩
    · rintro ⟨u, hu, -, hleft⟩
      exact ⟨rest, ⟨u, hu, hleft⟩, rfl⟩
  | cons c word ih =>
    have hitems : alternatives (lettersOf (c :: word)) (words.map lettersOf) =
        if isShared (ofLetter c) (words.map lettersOf) then
          ofLetter c :: alternatives (lettersOf word) ((words.map lettersOf).map List.tail)
        else [(commonSet? (((c :: word) :: words).map lettersOf)).getD
          ⟨choiceOf (lettersOf (c :: word)) (words.map lettersOf), .other⟩] := rfl
    rw [hitems]
    cases hshared : isShared (ofLetter c) (words.map lettersOf) with
    | true =>
      -- the letter is taken out in front, and the rests of the words are left
      obtain ⟨tails, rfl⟩ := exists_eq_map_cons (isShared_iff.1 hshared)
      have htails : ((tails.map (c :: ·)).map lettersOf).map List.tail = tails.map lettersOf := by
        rw [List.map_map, List.map_map]
        rfl
      rw [if_pos rfl, htails]
      refine (leaves_seq leaves_ofLetter (ih tails)).congr fun text rest => ?_
      have hall : (c :: word) :: tails.map (c :: ·) = (word :: tails).map (c :: ·) := rfl
      rw [hall]
      constructor
      · rintro ⟨behind, ⟨d, rfl, hsame⟩, u, hu, hheeded, hleft⟩
        exact ⟨c :: u, List.mem_map_of_mem hu, unheeded_map_cons.not.2 hheeded,
          leavesBehind_cons.2 ⟨d, behind, rfl, hsame, hleft⟩⟩
      · rintro ⟨_, hmem, hheeded, hleft⟩
        obtain ⟨u, hu, rfl⟩ := List.mem_map.1 hmem
        obtain ⟨d, behind, rfl, hsame, hrest⟩ := leavesBehind_cons.1 hleft
        exact ⟨behind, ⟨d, rfl, hsame⟩, u, hu, unheeded_map_cons.not.1 hheeded, hrest⟩
    | false =>
      rw [if_neg Bool.false_ne_true]
      refine (leaves_seq (leaves_not_shared hshared) leaves_empty).congr fun text rest => ?_
      constructor
      · rintro ⟨_, hleft, rfl⟩
        exact hleft
      · exact fun hleft => ⟨rest, hleft, rfl⟩

end Item

/-! ## What the patterns accept -/

namespace Pattern

open Text

variable {word name : Text} {words : List Text}

/-- A pattern accepts a name of which its expression leaves a rest, asked at the start. -/
theorem accepts_iff {p : Pattern} {leaves : Text → Text → Prop}
    (h : p.expr.Leaves p.caseless name.length leaves) :
    p.accepts name = true ↔ ∃ rest, leaves name rest := by
  rw [accepts, h]
  simp

/-- **A pattern for a word** accepts the names that begin with it, without regard to case. -/
theorem starting_accepts_iff : (starting word).accepts name = true ↔ StartsLike word name := by
  rw [accepts_iff (Expr.leaves_seq Expr.leaves_textStart (Item.leaves_lettersOf word _))]
  refine exists_congr fun rest => ?_
  constructor
  · rintro ⟨_, ⟨rfl, -⟩, hleft⟩
    exact hleft
  · exact fun hleft => ⟨name, ⟨rfl, rfl⟩, hleft⟩

/-- **A pattern for several words** accepts the names that begin with one of them, if it is
heeded. -/
theorem startingWithAny_accepts_iff :
    (startingWithAny word words).accepts name = true ↔
      ∃ u ∈ word :: words, ¬ Unheeded (word :: words) u ∧ StartsLike u name := by
  rw [accepts_iff (Expr.leaves_seq Expr.leaves_textStart (Item.leaves_alternatives word words _))]
  constructor
  · rintro ⟨rest, _, ⟨rfl, -⟩, u, hu, hheeded, hleft⟩
    exact ⟨u, hu, hheeded, rest, hleft⟩
  · rintro ⟨u, hu, hheeded, rest, hleft⟩
    exact ⟨rest, name, ⟨rfl, rfl⟩, u, hu, hheeded, hleft⟩

end Pattern

end ProjectAudit
