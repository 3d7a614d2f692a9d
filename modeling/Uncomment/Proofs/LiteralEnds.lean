/-
# Where literals end, by counting backslashes

The readers of `Scan.Extent` walk over a literal and take the character after a backslash along.
Here the end of a literal is described without a walk. A character is escaped if the run of
backslashes directly before it has odd length, and a literal ends at the first mark that closes it
and is not escaped, unless a line feed that is not escaped comes before. A slash closes a regular
expression outside its character classes only; a class opens at a bracket outside a class and
closes at the next closing bracket, escaped ones apart.

Walking and counting agree because what is escaped behind a backslash and its character, or behind
any other character, does not depend on them (`escaped_append`): these can be taken off the front of
a text one after the other, as the readers do.

Key definitions: `Escaped`, `Unescaped`, `InClass`, `LiteralEnds`, `StringEnds`, `RegexEnds`.
Key theorems: `stringEnds_quotedExtent`, `regexEnds_regexExtent`, `literals_end_unescaped`.
-/
import Mathlib.Algebra.Ring.Parity
import Mathlib.Data.List.DropRight
import Mathlib.Order.Bounds.Basic
import Uncomment.Proofs.Unique

namespace Uncomment

open Text

/-! ### Escaped characters -/

/-- The number of backslashes at the end of a text. -/
def backslashes (cs : List Char) : Nat := (cs.rtakeWhile (· = '\\')).length

/-- Whether the character with number `i` is escaped: the run of backslashes directly before it
has odd length. -/
def Escaped (cs : List Char) (i : Nat) : Prop := Odd (backslashes (cs.take i))

/-- Whether the character with number `i` is `c` and not escaped. -/
def Unescaped (c : Char) (cs : List Char) (i : Nat) : Prop := cs[i]? = some c ∧ ¬ Escaped cs i

theorem odd_backslashes_append {front : List Char} (h : Even (backslashes front))
    (back : List Char) : Odd (backslashes (front ++ back)) ↔ Odd (backslashes back) := by
  simp only [backslashes, List.rtakeWhile, List.length_reverse] at h ⊢
  rw [List.reverse_append, List.takeWhile_append]
  split
  · -- the run goes through all of `back` and on into `front`
    next hwhole => simp [hwhole, Nat.odd_add, h]
  · rfl

section Front

variable {front : List Char} (hfront : Even (backslashes front)) (cs : List Char)
include hfront

/-- A front that ends with an even run of backslashes escapes nothing behind it. -/
theorem escaped_append (i : Nat) : Escaped (front ++ cs) (i + front.length) ↔ Escaped cs i := by
  rw [Escaped, Nat.add_comm, List.take_length_add_append, odd_backslashes_append hfront, Escaped]

theorem unescaped_append (c : Char) (i : Nat) :
    Unescaped c (front ++ cs) (i + front.length) ↔ Unescaped c cs i := by
  rw [Unescaped, Unescaped, escaped_append hfront, List.getElem?_append_right (Nat.le_add_left ..),
    Nat.add_sub_cancel]

end Front

theorem even_backslashes_pair (c : Char) : Even (backslashes ['\\', c]) := by
  by_cases hc : c = '\\'
  · subst hc
    decide
  · simp [backslashes, List.rtakeWhile, hc]

theorem even_backslashes_single {c : Char} (h : c ≠ '\\') : Even (backslashes [c]) := by
  simp [backslashes, List.rtakeWhile, h]

theorem unescaped_zero {c d : Char} {cs : List Char} : Unescaped d (c :: cs) 0 ↔ c = d := by
  simp [Unescaped, Escaped, backslashes]

theorem not_unescaped_one (c d : Char) (cs : List Char) : ¬ Unescaped d ('\\' :: c :: cs) 1 :=
  fun h => h.2 (by decide : Odd 1)

theorem not_unescaped_nil (c : Char) (i : Nat) : ¬ Unescaped c [] i := by
  simp [Unescaped]

theorem pos_of_unescaped {c d : Char} (h : c ≠ d) (cs : List Char) :
    ∀ i, Unescaped d (c :: cs) i → 0 < i
  | 0, hzero => absurd (unescaped_zero.mp hzero) h
  | i + 1, _ => Nat.succ_pos i

theorem isLeast_unescaped_zero (c : Char) (cs : List Char) :
    IsLeast {i | Unescaped c (c :: cs) i} 0 := ⟨unescaped_zero.mpr rfl, fun _ _ => Nat.zero_le _⟩

/-! ### Positions further on -/

/-- The positions with the property `P` are those with the property `Q`, each `k` further on. -/
structure Shifted (k : Nat) (P Q : Nat → Prop) : Prop where
  none : ∀ i < k, ¬ P i
  later : ∀ i, P (i + k) ↔ Q i

namespace Shifted

variable {k : Nat} {P Q : Nat → Prop}

theorem exists_of (h : Shifted k P Q) {j : Nat} (hj : P j) : ∃ i, Q i ∧ j = i + k := by
  have hle : k ≤ j := Nat.le_of_not_lt fun hlt => h.none j hlt hj
  obtain ⟨i, rfl⟩ := Nat.exists_eq_add_of_le' hle
  exact ⟨i, (h.later i).mp hj, rfl⟩

theorem isLeast (h : Shifted k P Q) {i : Nat} (hi : IsLeast {j | Q j} i) :
    IsLeast {j | P j} (i + k) := by
  refine ⟨(h.later i).mpr hi.1, fun j hj => ?_⟩
  obtain ⟨j, hlater, rfl⟩ := h.exists_of hj
  exact Nat.add_le_add_right (hi.2 hlater) k

theorem lt (h : Shifted k P Q) {i : Nat} (hi : ∀ j, Q j → i < j) : ∀ j, P j → i + k < j := by
  intro j hj
  obtain ⟨j, hlater, rfl⟩ := h.exists_of hj
  exact Nat.add_lt_add_right (hi j hlater) k

theorem forall_not (h : Shifted k P Q) (hnone : ∀ j, ¬ Q j) : ∀ j, ¬ P j := by
  intro j hj
  obtain ⟨i, hi, -⟩ := h.exists_of hj
  exact hnone i hi

end Shifted

/-- An escape pair holds no unescaped character but its backslash. -/
theorem shifted_pair {d : Char} (hd : d ≠ '\\') (c : Char) (cs : List Char) :
    Shifted 2 (Unescaped d ('\\' :: c :: cs)) (Unescaped d cs) where
  none
    | 0, _ => fun h => hd (unescaped_zero.mp h).symm
    | 1, _ => not_unescaped_one c d cs
  later := unescaped_append (even_backslashes_pair c) cs d

theorem shifted_single {c d : Char} (hc : c ≠ '\\') (hd : c ≠ d) (cs : List Char) :
    Shifted 1 (Unescaped d (c :: cs)) (Unescaped d cs) where
  none
    | 0, _ => fun h => hd (unescaped_zero.mp h)
  later := unescaped_append (even_backslashes_single hc) cs d

/-- A backslash at the end of a text is the only unescaped character there. -/
theorem not_unescaped_last {d : Char} (hd : d ≠ '\\') : ∀ i, ¬ Unescaped d ['\\'] i
  | 0 => fun h => hd (unescaped_zero.mp h).symm
  | i + 1 => by simp [Unescaped]

theorem eq_nil_of_ne_cons {cs : List Char} (h : ∀ c ds, cs ≠ c :: ds) : cs = [] := by
  by_contra hne
  obtain ⟨c, ds, hcs⟩ := List.exists_cons_of_ne_nil hne
  exact h c ds hcs

/-! ### The end of a literal -/

/-- How far a literal goes into the text `cs` after its opening mark, and whether it is closed,
if the characters at the positions with the property `closes` can close it. It goes up to
`closedAt i` if the character with number `i` closes it, and up to `brokenAt i` if the line feed
with number `i` breaks it off. -/
inductive LiteralEnds (closes : Nat → Prop) (closedAt brokenAt : Nat → Nat) (cs : List Char) :
    Extent → Prop where
  /-- The first mark closes it, if it comes before every unescaped line feed. -/
  | closed {i : Nat} (hmark : IsLeast {j | closes j} i)
      (hfeed : ∀ j, Unescaped '\n' cs j → i < j) :
      LiteralEnds closes closedAt brokenAt cs ⟨closedAt i, true⟩
  /-- The first unescaped line feed breaks it off, if it comes before every mark. -/
  | broken {i : Nat} (hfeed : IsLeast {j | Unescaped '\n' cs j} i)
      (hmark : ∀ j, closes j → i < j) :
      LiteralEnds closes closedAt brokenAt cs ⟨brokenAt i, false⟩
  /-- Without either it goes to the end of the text. -/
  | stop (hmark : ∀ j, ¬ closes j) (hfeed : ∀ j, ¬ Unescaped '\n' cs j) :
      LiteralEnds closes closedAt brokenAt cs ⟨cs.length, false⟩

namespace LiteralEnds

variable {closes closes' : Nat → Prop} {closedAt brokenAt closedAt' brokenAt' : Nat → Nat}
  {cs : List Char} {e e' : Extent}

/-- A literal has one end. -/
theorem unique (h : LiteralEnds closes closedAt brokenAt cs e)
    (h' : LiteralEnds closes closedAt brokenAt cs e') : e = e' := by
  cases h with
  | closed hmark hfeed =>
    cases h' with
    | closed hmark' _ => rw [hmark.unique hmark']
    | broken hfeed' hmark' => exact absurd (hfeed _ hfeed'.1) (Nat.lt_asymm (hmark' _ hmark.1))
    | stop hmark' _ => exact absurd hmark.1 (hmark' _)
  | broken hfeed hmark =>
    cases h' with
    | closed hmark' hfeed' => exact absurd (hmark _ hmark'.1) (Nat.lt_asymm (hfeed' _ hfeed.1))
    | broken hfeed' _ => rw [hfeed.unique hfeed']
    | stop _ hfeed' => exact absurd hfeed.1 (hfeed' _)
  | stop hmark hfeed =>
    cases h' with
    | closed hmark' _ => exact absurd hmark'.1 (hmark _)
    | broken hfeed' _ => exact absurd hfeed'.1 (hfeed _)
    | stop _ _ => rfl

/-- A literal ends as far behind a front without marks and line feeds as it does without it. -/
theorem shift (front : List Char) (hcloses : Shifted front.length closes' closes)
    (hfeed : Shifted front.length (Unescaped '\n' (front ++ cs)) (Unescaped '\n' cs))
    (hclosed : ∀ i, closedAt' (i + front.length) = closedAt i + front.length)
    (hbroken : ∀ i, brokenAt' (i + front.length) = brokenAt i + front.length)
    (h : LiteralEnds closes closedAt brokenAt cs e) :
    LiteralEnds closes' closedAt' brokenAt' (front ++ cs) ⟨e.length + front.length, e.closed⟩ := by
  cases h with
  | closed hleast hlt =>
    rw [← hclosed]
    exact .closed (hcloses.isLeast hleast) (hfeed.lt hlt)
  | broken hleast hlt =>
    rw [← hbroken]
    exact .broken (hfeed.isLeast hleast) (hcloses.lt hlt)
  | stop hmarks hfeeds =>
    rw [Nat.add_comm, ← List.length_append]
    exact .stop (hcloses.forall_not hmarks) (hfeed.forall_not hfeeds)

end LiteralEnds

/-- An extent that is counted on from `n + k`. -/
theorem extent_add {n k : Nat} {e f : Extent} (h : f = ⟨n + k + e.length, e.closed⟩) :
    f = ⟨n + (e.length + k), e.closed⟩ := by
  rw [h, Nat.add_assoc, Nat.add_comm k]

/-! ### Strings -/

/-- Where a string ends: with its first unescaped quote, or else with the first unescaped line
feed. -/
def StringEnds (quote : Char) (cs : List Char) : Extent → Prop :=
  LiteralEnds (Unescaped quote cs) (· + 1) (· + 1) cs

theorem stringEnds_shift {quote : Char} (front : List Char) {cs : List Char} {e : Extent}
    (h : ∀ d, d = quote ∨ d = '\n' →
      Shifted front.length (Unescaped d (front ++ cs)) (Unescaped d cs))
    (hends : StringEnds quote cs e) :
    StringEnds quote (front ++ cs) ⟨e.length + front.length, e.closed⟩ :=
  hends.shift front (h quote (.inl rfl)) (h '\n' (.inr rfl)) (fun _ => Nat.add_right_comm ..)
    (fun _ => Nat.add_right_comm ..)

/-- The reader of strings finds their end. -/
theorem exists_stringEnds {quote : Char} (hquote : isQuote quote = true) (n : Nat)
    (cs : List Char) :
    ∃ e, StringEnds quote cs e ∧ quotedExtent quote n cs = ⟨n + e.length, e.closed⟩ := by
  have hesc : ∀ d, d = quote ∨ d = '\n' → d ≠ '\\' := by
    rintro d (rfl | rfl)
    · exact (ne_of_isQuote hquote (by decide)).symm
    · decide
  have hfeed : quote ≠ '\n' := (ne_of_isQuote hquote (by decide)).symm
  fun_induction quotedExtent quote n cs with
  | case1 n => exact ⟨⟨0, false⟩, .stop (not_unescaped_nil _) (not_unescaped_nil _), rfl⟩
  | case2 n c cs ih =>
    obtain ⟨e, hends, hextent⟩ := ih
    refine ⟨⟨e.length + 2, e.closed⟩, ?_, extent_add hextent⟩
    exact stringEnds_shift ['\\', c] (fun d hd => shifted_pair (hesc d hd) c cs) hends
  | case3 n cs _ =>
    exact ⟨⟨1, true⟩, .closed (isLeast_unescaped_zero quote cs) (pos_of_unescaped hfeed cs), rfl⟩
  | case4 n cs _ hne =>
    exact ⟨⟨1, false⟩, .broken (isLeast_unescaped_zero '\n' cs)
      (pos_of_unescaped (Ne.symm hfeed) cs), rfl⟩
  | case5 n c cs hpair hne hline ih =>
    by_cases hc : c = '\\'
    · -- a backslash without a character after it
      subst hc
      obtain rfl : cs = [] := eq_nil_of_ne_cons (fun d ds => hpair d ds rfl)
      exact ⟨⟨1, false⟩, .stop (not_unescaped_last (hesc _ (.inl rfl)))
        (not_unescaped_last (hesc _ (.inr rfl))), rfl⟩
    · obtain ⟨e, hends, hextent⟩ := ih
      refine ⟨⟨e.length + 1, e.closed⟩, ?_, extent_add hextent⟩
      refine stringEnds_shift [c] (fun d hd => shifted_single hc ?_ cs) hends
      rcases hd with rfl | rfl
      · exact hne
      · exact hline

theorem stringEnds_quotedExtent {quote : Char} (hquote : isQuote quote = true) (cs : List Char) :
    StringEnds quote cs (quotedExtent quote 0 cs) := by
  obtain ⟨e, hends, hextent⟩ := exists_stringEnds hquote 0 cs
  rwa [hextent, Nat.zero_add]

/-! ### Regular expressions -/

/-- Whether the character with number `i` stands inside a character class: an unescaped bracket
outside a class opened one before it, and no unescaped closing bracket came since. -/
def InClass (cs : List Char) (i : Nat) : Prop :=
  ∃ k, ∃ _ : k < i, Unescaped '[' cs k ∧ ¬ InClass cs k ∧
    ∀ j, k < j → j < i → ¬ Unescaped ']' cs j
termination_by i

/-- Where a regular expression ends: at the first unescaped slash outside a class, with all the
flags after it, or else before the first unescaped line feed. -/
def RegexEnds (cs : List Char) : Extent → Prop :=
  LiteralEnds (fun i => Unescaped '/' cs i ∧ ¬ InClass cs i)
    (fun i => i + 1 + ((cs.drop (i + 1)).takeWhile isAlphabetic).length) id cs

theorem not_inClass_zero (cs : List Char) : ¬ InClass cs 0 := by
  rw [InClass]
  rintro ⟨k, hk, -⟩
  exact Nat.not_lt_zero k hk

/-- What a character does to a class: an opening bracket opens one if none is open, and a closing
bracket closes it. -/
theorem inClass_succ (cs : List Char) (i : Nat) :
    InClass cs (i + 1) ↔ (InClass cs i ∨ Unescaped '[' cs i) ∧ ¬ Unescaped ']' cs i := by
  constructor
  · intro h
    rw [InClass] at h
    obtain ⟨k, hk, hopen, hout, hclose⟩ := h
    rcases Nat.lt_succ_iff_lt_or_eq.mp hk with hlt | rfl
    · refine ⟨.inl ?_, hclose i hlt (Nat.lt_succ_self i)⟩
      rw [InClass]
      exact ⟨k, hlt, hopen, hout, fun j hkj hji => hclose j hkj (Nat.lt_succ_of_lt hji)⟩
    · refine ⟨.inr hopen, fun hbracket => ?_⟩
      have hsame := hopen.1.symm.trans hbracket.1
      exact absurd hsame (by decide)
  · rintro ⟨hclass, hclose⟩
    by_cases hin : InClass cs i
    · rw [InClass] at hin ⊢
      obtain ⟨k, hk, hopen, hout, hclose'⟩ := hin
      refine ⟨k, Nat.lt_succ_of_lt hk, hopen, hout, fun j hkj hji => ?_⟩
      rcases Nat.lt_succ_iff_lt_or_eq.mp hji with hlt | rfl
      · exact hclose' j hkj hlt
      · exact hclose
    · rw [InClass]
      refine ⟨i, Nat.lt_succ_self i, hclass.resolve_left hin, hin, fun j hij hji => ?_⟩
      exact absurd hij (Nat.not_lt.mpr (Nat.le_of_lt_succ hji))

/-- Whether the character with number `i` stands inside a class, if the text starts inside one or
outside as `start` says. -/
def ClassFrom (start : Bool) (cs : List Char) : Nat → Prop
  | 0 => start = true
  | i + 1 => (ClassFrom start cs i ∨ Unescaped '[' cs i) ∧ ¬ Unescaped ']' cs i

theorem inClass_iff (cs : List Char) (i : Nat) : InClass cs i ↔ ClassFrom false cs i := by
  induction i with
  | zero => simp [not_inClass_zero, ClassFrom]
  | succ i ih => rw [inClass_succ, ih, ClassFrom]

/-- Behind a front, a class is open as if the text started with what the front leaves open. -/
theorem classFrom_append {front : List Char} (hfront : Even (backslashes front)) {cs : List Char}
    {start stop : Bool} (hstop : ClassFrom start (front ++ cs) front.length ↔ stop = true)
    (i : Nat) : ClassFrom start (front ++ cs) (i + front.length) ↔ ClassFrom stop cs i := by
  induction i with
  | zero => rwa [Nat.zero_add]
  | succ i ih =>
    rw [Nat.add_right_comm, ClassFrom, ClassFrom, ih, unescaped_append hfront,
      unescaped_append hfront]

/-- Whether the slash with number `i` closes a regular expression. -/
def ClosesFrom (start : Bool) (cs : List Char) (i : Nat) : Prop :=
  Unescaped '/' cs i ∧ ¬ ClassFrom start cs i

/-- Where the rest of a regular expression ends. -/
def RegexEndsFrom (start : Bool) (cs : List Char) : Extent → Prop :=
  LiteralEnds (ClosesFrom start cs)
    (fun i => i + 1 + ((cs.drop (i + 1)).takeWhile isAlphabetic).length) id cs

theorem regexEndsFrom_shift (front : List Char) (hfront : Even (backslashes front))
    {cs : List Char} {start stop : Bool} {e : Extent}
    (hnone : ∀ i < front.length, ¬ ClosesFrom start (front ++ cs) i)
    (hfeed : Shifted front.length (Unescaped '\n' (front ++ cs)) (Unescaped '\n' cs))
    (hstop : ClassFrom start (front ++ cs) front.length ↔ stop = true)
    (hends : RegexEndsFrom stop cs e) :
    RegexEndsFrom start (front ++ cs) ⟨e.length + front.length, e.closed⟩ := by
  refine hends.shift front ⟨hnone, fun i => ?_⟩ hfeed (fun i => ?_) (fun _ => rfl)
  · rw [ClosesFrom, unescaped_append hfront, classFrom_append hfront hstop, ClosesFrom]
  · have hdrop : (front ++ cs).drop (i + front.length + 1) = cs.drop (i + 1) := by
      rw [Nat.add_right_comm, Nat.add_comm, List.drop_length_add_append]
    rw [hdrop]
    omega

/-- A character that neither ends a regular expression nor is a backslash may open or close a
class. -/
theorem regexEndsFrom_single {c : Char} (hesc : c ≠ '\\') (hfeed : c ≠ '\n') {cs : List Char}
    {start stop : Bool} {e : Extent} (hslash : c = '/' → start = true)
    (hstop : ((start = true ∨ c = '[') ∧ c ≠ ']') ↔ stop = true) (hends : RegexEndsFrom stop cs e) :
    RegexEndsFrom start (c :: cs) ⟨e.length + 1, e.closed⟩ := by
  refine regexEndsFrom_shift [c] (even_backslashes_single hesc) ?_ (shifted_single hesc hfeed cs) ?_
    hends
  · rintro i hi ⟨hbare, hout⟩
    obtain rfl : i = 0 := Nat.lt_one_iff.mp hi
    exact hout (hslash (unescaped_zero.mp hbare))
  · exact (and_congr (or_congr Iff.rfl unescaped_zero) (not_congr unescaped_zero)).trans hstop

theorem regexEndsFrom_pair (c : Char) {cs : List Char} {start : Bool} {e : Extent}
    (hends : RegexEndsFrom start cs e) :
    RegexEndsFrom start ('\\' :: c :: cs) ⟨e.length + 2, e.closed⟩ := by
  refine regexEndsFrom_shift ['\\', c] (even_backslashes_pair c) ?_ (shifted_pair (by decide) c cs)
    ?_ hends
  · exact fun i hi h => (shifted_pair (by decide) c cs).none i hi h.1
  · -- neither character of the pair is an unescaped bracket
    have hnone : ∀ d, d ≠ '\\' → ∀ i < 2, ¬ Unescaped d ('\\' :: c :: cs) i := fun d hd =>
      (shifted_pair hd c cs).none
    simp [ClassFrom, hnone]

/-- The reader of regular expressions finds their end. -/
theorem exists_regexEnds (start : Bool) (n : Nat) (cs : List Char) :
    ∃ e, RegexEndsFrom start cs e ∧ regexExtent start n cs = ⟨n + e.length, e.closed⟩ := by
  fun_induction regexExtent start n cs with
  | case1 start n =>
    exact ⟨⟨0, false⟩, .stop (fun i h => not_unescaped_nil _ i h.1) (not_unescaped_nil _), rfl⟩
  | case2 start n c cs ih =>
    obtain ⟨e, hends, hextent⟩ := ih
    exact ⟨⟨e.length + 2, e.closed⟩, regexEndsFrom_pair c hends, extent_add hextent⟩
  | case3 start n c cs hpair hopen ih =>
    obtain ⟨e, hends, hextent⟩ := ih
    obtain ⟨rfl, -⟩ := hopen
    refine ⟨⟨e.length + 1, e.closed⟩, ?_, extent_add hextent⟩
    exact regexEndsFrom_single (by decide) (by decide) (by simp) (by simp) hends
  | case4 start n c cs hpair hopen hclose ih =>
    obtain ⟨e, hends, hextent⟩ := ih
    obtain ⟨rfl, rfl⟩ := hclose
    refine ⟨⟨e.length + 1, e.closed⟩, ?_, extent_add hextent⟩
    exact regexEndsFrom_single (by decide) (by decide) (by decide) (by simp) hends
  | case5 start n c cs hpair hopen hclose hslash =>
    obtain ⟨rfl, hout⟩ := hslash
    obtain rfl : start = false := by simpa using hout
    refine ⟨_, .closed (i := 0) ⟨⟨unescaped_zero.mpr rfl, Bool.false_ne_true⟩, ?_⟩ ?_, ?_⟩
    · exact fun _ _ => Nat.zero_le _
    · exact pos_of_unescaped (by decide) cs
    · simp [Nat.add_assoc]
  | case6 start n cs hpair hopen hclose hslash =>
    refine ⟨⟨0, false⟩, .broken (isLeast_unescaped_zero '\n' cs) (fun j h => ?_), rfl⟩
    exact pos_of_unescaped (by decide) cs j h.1
  | case7 start n c cs hpair hopen hclose hslash hfeed ih =>
    by_cases hc : c = '\\'
    · -- a backslash without a character after it
      subst hc
      obtain rfl : cs = [] := eq_nil_of_ne_cons (fun d ds => hpair d ds rfl)
      refine ⟨⟨1, false⟩, .stop (fun i h => ?_) (not_unescaped_last (by decide)), rfl⟩
      exact not_unescaped_last (by decide) i h.1
    · obtain ⟨e, hends, hextent⟩ := ih
      refine ⟨⟨e.length + 1, e.closed⟩, ?_, extent_add hextent⟩
      refine regexEndsFrom_single hc hfeed (fun h => ?_) ?_ hends
      · simpa [h] using hslash
      · cases start with
        | true => simpa using hclose
        | false => simpa using fun h => absurd h (by simpa using hopen)

theorem regexEnds_regexExtent (cs : List Char) : RegexEnds cs (regexExtent false 0 cs) := by
  obtain ⟨e, hends, hextent⟩ := exists_regexEnds false 0 cs
  have hcloses : (fun i => Unescaped '/' cs i ∧ ¬ InClass cs i) = ClosesFrom false cs := by
    funext i
    rw [inClass_iff, ClosesFrom]
  rwa [hextent, Nat.zero_add, RegexEnds, hcloses]

namespace Scan

/-! ### Literals in a scan -/

/-- Whether the state `t` comes after `s` by a literal that starts with `mark`, goes as far into
`cs` as `extent` says, and has the diagnostic `id` if it is not closed: the literal is copied, one
fault is noted or none, and frames, counts and what was written before stay. -/
structure TakesLiteral (s : State) (mark : Char) (cs : List Char) (extent : Extent) (id : String)
    (t : State) : Prop where
  rest : t.rest = cs.drop extent.length
  out : t.out.reverse = s.out.reverse ++ mark :: cs.take extent.length
  pos : t.pos = s.pos + byteSize (mark :: cs.take extent.length)
  frames : t.frames = s.frames
  stats : t.stats = s.stats
  closed : extent.closed = true → t.faults = s.faults
  unclosed : extent.closed = false → ∃ f : Fault, t.faults = f :: s.faults ∧
    f.defect.code.id = id ∧ f.span = Span.between s.pos t.pos

/-- A literal that is copied, with a fault noted unless it is closed, is taken. -/
theorem takesLiteral_note (s : State) (mark : Char) (cs : List Char) (extent : Extent)
    (defect : Defect) (tracker : Tracker) :
    TakesLiteral s mark cs extent defect.code.id
      { s with
        rest := cs.drop extent.length
        pos := s.pos + byteSize (mark :: cs.take extent.length)
        out := (mark :: cs.take extent.length).reverse ++ s.out
        tracker
        faults := s.note extent.closed defect (mark :: cs.take extent.length) } where
  rest := rfl
  out := by simp
  pos := rfl
  frames := rfl
  stats := rfl
  closed h := if_pos h
  unclosed h := ⟨_, if_neg (Bool.eq_false_iff.mp h), rfl, rfl⟩

theorem step_quote (o : ScanOptions) {s : State} (hcode : s.reading.place ≠ .template)
    {quote : Char} (hquote : isQuote quote = true) (cs : List Char) :
    step o s quote cs = absorb s (nextQuoted quote cs).1 (nextQuoted quote cs).2 := by
  obtain ⟨ctx, -, hnext⟩ := next_eq_nextCode hcode
  rw [step, hnext, nextCode, if_pos hquote]

theorem step_regex (o : ScanOptions) {s : State} (hcode : s.reading.place ≠ .template)
    {cs : List Char} (hstart : s.tracker.canStartRegex = true) (hopens : opensRegex cs = true) :
    step o s '/' cs = absorb s (nextRegex cs).1 (nextRegex cs).2 := by
  obtain ⟨ctx, -, hnext⟩ := next_eq_nextCode hcode
  obtain ⟨hline, hblock⟩ := head?_of_opensRegex hopens
  have hslash : nextCode o s ctx '/' cs = nextRegex cs := by
    rw [nextCode, if_neg (by decide), if_neg (by decide), if_pos rfl,
      nextSlash_of_head hline hblock, hstart, hopens]
    rfl
  rw [step, hnext, hslash]

/-- **Literals end where counting backslashes says.** At every state in code, a quote starts a
string and a slash where a regular expression can start one, and there is exactly one place where
it ends by the first unescaped mark or line feed. The scan copies it up to there, reports it once
if it is not closed and not otherwise, and changes no frame, no count and nothing written before. -/
theorem literals_end_unescaped (o : ScanOptions) {s : State} (hcode : s.reading.place ≠ .template)
    (cs : List Char) :
    (∀ quote, isQuote quote = true →
      (∃ e, StringEnds quote cs e) ∧
      ∀ e, StringEnds quote cs e → TakesLiteral s quote cs e "DCM1001" (step o s quote cs)) ∧
    (s.tracker.canStartRegex = true → opensRegex cs = true →
      (∃ e, RegexEnds cs e) ∧
      ∀ e, RegexEnds cs e → TakesLiteral s '/' cs e "DCM1004" (step o s '/' cs)) := by
  refine ⟨fun quote hquote => ?_, fun hstart hopens => ?_⟩
  · have hends := stringEnds_quotedExtent hquote cs
    refine ⟨⟨_, hends⟩, fun e he => ?_⟩
    rw [he.unique hends, step_quote o hcode hquote]
    exact takesLiteral_note s quote cs _ (.string quote) _
  · have hends := regexEnds_regexExtent cs
    refine ⟨⟨_, hends⟩, fun e he => ?_⟩
    rw [he.unique hends, step_regex o hcode hstart hopens]
    exact takesLiteral_note s '/' cs _ .regex _

/-- A string with an escaped quote that ends behind an escaped backslash, and a regular expression
with a slash in a class and an escaped one behind it that a line feed breaks off. -/
theorem literals_end_unescaped_backslashes :
    (({ rest := "'it\\'s\\\\' // y".toList } : State).reading.place ≠ .template ∧
      isQuote '\x27' = true ∧
      TakesLiteral { rest := "'it\\'s\\\\' // y".toList } '\x27' "it\\'s\\\\' // y".toList ⟨8, true⟩
        "DCM1001"
        (step {} { rest := "'it\\'s\\\\' // y".toList } '\x27' "it\\'s\\\\' // y".toList)) ∧
    ({ rest := "/[/\\]]\\/\n/".toList } : State).reading.place ≠ .template ∧
      ({ rest := "/[/\\]]\\/\n/".toList } : State).tracker.canStartRegex = true ∧
      opensRegex "[/\\]]\\/\n/".toList = true ∧
      TakesLiteral { rest := "/[/\\]]\\/\n/".toList } '/' "[/\\]]\\/\n/".toList ⟨7, false⟩ "DCM1004"
        (step {} { rest := "/[/\\]]\\/\n/".toList } '/' "[/\\]]\\/\n/".toList) := by
  have hcode : ∀ cs, ({ rest := cs } : State).reading.place ≠ .template := fun _ h =>
    Place.noConfusion h
  have hstring : StringEnds '\x27' "it\\'s\\\\' // y".toList ⟨8, true⟩ :=
    stringEnds_quotedExtent (by decide) "it\\'s\\\\' // y".toList
  have hregex : RegexEnds "[/\\]]\\/\n/".toList ⟨7, false⟩ :=
    regexEnds_regexExtent "[/\\]]\\/\n/".toList
  refine ⟨⟨hcode _, by decide, ?_⟩, hcode _, by decide, by decide, ?_⟩
  · exact ((literals_end_unescaped {} (hcode _) _).1 _ (by decide)).2 _ hstring
  · exact ((literals_end_unescaped {} (hcode _) _).2 (by decide) (by decide)).2 _ hregex

end Scan

end Uncomment
