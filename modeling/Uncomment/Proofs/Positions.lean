/-
# The line and the column of an offset

A line index lists the offsets at which lines start, in increasing order, and bisection finds
how many of them are not above an offset (`bisect_eq_countP`). So the line of an offset is one
more than the number of line feeds before it (`line_position`), and its column is one more than
the number of bytes since the last of them (`position_eq`).

Key theorems: `LineIndex.bisect_eq_countP`, `LineIndex.line_position`, `LineIndex.position_eq`.
-/
import Mathlib.Data.List.DropRight
import Mathlib.Data.List.GetD
import Uncomment.Position

namespace Uncomment

open Text

namespace LineIndex

/-! ### Bisection -/

/-- Bisection ends between what is not above `x` and what is, if it starts around there. -/
theorem bisect_spec (a : Array Nat) (x lo hi : Nat)
    (hsorted : ∀ i j, i ≤ j → j < a.size → a.getD i 0 ≤ a.getD j 0)
    (hle : lo ≤ hi) (hsize : hi ≤ a.size) (hlow : ∀ i < lo, a.getD i 0 ≤ x)
    (hhigh : ∀ i, hi ≤ i → i < a.size → x < a.getD i 0) :
    bisect a x lo hi ≤ a.size ∧ (∀ i < bisect a x lo hi, a.getD i 0 ≤ x) ∧
      ∀ i, bisect a x lo hi ≤ i → i < a.size → x < a.getD i 0 := by
  fun_induction bisect a x lo hi with
  | case1 lo hi hlt mid hmid ih =>
    refine ih (by omega) hsize (fun i hi => ?_) hhigh
    exact Nat.le_trans (hsorted i mid (by omega) (by omega)) hmid
  | case2 lo hi hlt mid hmid ih =>
    refine ih (by omega) (by omega) hlow (fun i hi hlt => ?_)
    exact Nat.lt_of_lt_of_le (Nat.lt_of_not_le hmid) (hsorted mid i hi hlt)
  | case3 lo hi hge =>
    have heq : lo = hi := by omega
    subst heq
    exact ⟨hsize, hlow, hhigh⟩

/-- A list that is not above `x` in its first `n` places and is above it elsewhere has `n` members
that are not above it. -/
theorem countP_of_split {xs : List Nat} {x n : Nat} (hn : n ≤ xs.length)
    (hlow : ∀ i < n, xs.getD i 0 ≤ x) (hhigh : ∀ i, n ≤ i → i < xs.length → x < xs.getD i 0) :
    xs.countP (· ≤ x) = n := by
  have hfront : (xs.take n).countP (· ≤ x) = n := by
    rw [List.countP_eq_length.mpr, List.length_take, Nat.min_eq_left hn]
    intro y hy
    obtain ⟨i, hi, rfl⟩ := List.mem_take_iff_getElem.mp hy
    have := hlow i (by omega)
    rw [List.getD_eq_getElem _ _ (by omega)] at this
    simpa using this
  have hback : (xs.drop n).countP (· ≤ x) = 0 := by
    rw [List.countP_eq_zero]
    intro y hy
    obtain ⟨i, hi, rfl⟩ := List.mem_drop_iff_getElem.mp hy
    have := hhigh (n + i) (by omega) (by omega)
    rw [List.getD_eq_getElem _ _ (by omega)] at this
    simpa using this
  rw [← List.take_append_drop n xs, List.countP_append, hfront, hback, Nat.add_zero]

/-- In an increasing list, bisection finds the place up to which its members are not above `x`. -/
theorem bisect_split {xs : List Nat} (h : xs.Pairwise (· < ·)) (x : Nat) :
    bisect xs.toArray x 0 xs.length ≤ xs.length ∧
      (∀ i < bisect xs.toArray x 0 xs.length, xs.getD i 0 ≤ x) ∧
      ∀ i, bisect xs.toArray x 0 xs.length ≤ i → i < xs.length → x < xs.getD i 0 := by
  have hget : ∀ i, xs.toArray.getD i 0 = xs.getD i 0 := fun i => by simp
  have hsorted : ∀ i j, i ≤ j → j < xs.toArray.size →
      xs.toArray.getD i 0 ≤ xs.toArray.getD j 0 := by
    intro i j hij hj
    rw [List.size_toArray] at hj
    rw [hget, hget, List.getD_eq_getElem _ _ (by omega), List.getD_eq_getElem _ _ hj]
    rcases Nat.eq_or_lt_of_le hij with rfl | hlt
    · exact Nat.le_refl _
    · exact Nat.le_of_lt (List.pairwise_iff_getElem.mp h i j (by omega) hj hlt)
  have hspec := bisect_spec xs.toArray x 0 xs.toArray.size hsorted
    (Nat.zero_le _) (Nat.le_refl _) (by simp) (fun i hi hlt => by omega)
  simpa only [hget, List.size_toArray] using hspec

/-- In an increasing list, bisection counts the members that are not above `x`. -/
theorem bisect_eq_countP {xs : List Nat} (h : xs.Pairwise (· < ·)) (x : Nat) :
    bisect xs.toArray x 0 xs.toArray.size = xs.countP (· ≤ x) := by
  obtain ⟨hsize, hlow, hhigh⟩ := bisect_split h x
  rw [List.size_toArray]
  exact (countP_of_split hsize hlow hhigh).symm

/-! ### Line starts -/

/-- Lines start after the offset at which the text begins. -/
theorem lt_of_mem_startsAfter {x : Nat} : ∀ {cs : List Char} {pos : Nat},
    x ∈ startsAfter pos cs → pos < x
  | c :: cs, pos, h => by
    have hsize := c.utf8Size_pos
    have hrest : x ∈ startsAfter (pos + c.utf8Size) cs → pos < x := fun h => by
      have := lt_of_mem_startsAfter h
      omega
    simp only [startsAfter] at h
    split at h
    · rcases List.mem_cons.mp h with rfl | h
      · omega
      · exact hrest h
    · exact hrest h

/-- Lines start one after the other. -/
theorem pairwise_startsAfter : ∀ (cs : List Char) (pos : Nat),
    (startsAfter pos cs).Pairwise (· < ·)
  | [], _ => .nil
  | c :: cs, pos => by
    simp only [startsAfter]
    split
    · exact .cons (fun x hx => lt_of_mem_startsAfter hx) (pairwise_startsAfter cs _)
    · exact pairwise_startsAfter cs _

/-- As many lines start up to the end of some text as there are line feeds in it. -/
theorem countP_startsAfter (back : List Char) {stop : Nat} : ∀ {front : List Char} {pos : Nat},
    pos + byteSize front = stop →
    (startsAfter pos (front ++ back)).countP (· ≤ stop) = front.count '\n'
  | [], pos, hstop => by
    rw [List.countP_eq_zero.mpr, List.count_nil]
    intro x hx
    have := lt_of_mem_startsAfter hx
    rw [byteSize_nil] at hstop
    simp only [decide_eq_true_eq]
    omega
  | c :: front, pos, hstop => by
    rw [byteSize_cons, ← Nat.add_assoc] at hstop
    have ih := countP_startsAfter back hstop
    simp only [List.cons_append, startsAfter]
    by_cases hc : c = '\n'
    · have hle : pos + c.utf8Size ≤ stop := by omega
      rw [if_pos hc, List.countP_cons_of_pos (by simpa using hle), ih, hc, List.count_cons_self]
    · rw [if_neg hc, ih, List.count_cons_of_ne hc]

/-- **The line of an offset is one more than the number of line feeds before it.** -/
theorem line_position (front back : List Char) :
    ((ofChars (front ++ back)).position (byteSize front)).line = 1 + front.count '\n' := by
  have hstarts : (0 :: startsAfter 0 (front ++ back)).Pairwise (· < ·) :=
    .cons (fun x hx => lt_of_mem_startsAfter hx) (pairwise_startsAfter _ 0)
  have hcount := countP_startsAfter back (Nat.zero_add (byteSize front))
  simp only [position, ofChars, bisect_eq_countP hstarts]
  rw [List.countP_cons_of_pos (by simp), hcount]
  omega

/-! ### Columns -/

/-- The lines of a text in two parts start in the one or in the other. -/
theorem startsAfter_append (back : List Char) : ∀ (front : List Char) (pos : Nat),
    startsAfter pos (front ++ back) =
      startsAfter pos front ++ startsAfter (pos + byteSize front) back
  | [], pos => by simp [startsAfter]
  | c :: front, pos => by
    have ih := startsAfter_append back front (pos + c.utf8Size)
    rw [byteSize_cons, ← Nat.add_assoc]
    simp only [List.cons_append, startsAfter]
    by_cases hc : c = '\n'
    · rw [if_pos hc, if_pos hc, ih, List.cons_append]
    · rw [if_neg hc, if_neg hc, ih]

/-- A line starts after each line feed. -/
theorem length_startsAfter : ∀ (cs : List Char) (pos : Nat),
    (startsAfter pos cs).length = cs.count '\n'
  | [], _ => rfl
  | c :: cs, pos => by
    have ih := length_startsAfter cs (pos + c.utf8Size)
    simp only [startsAfter]
    by_cases hc : c = '\n'
    · rw [if_pos hc, List.length_cons, ih, hc, List.count_cons_self]
    · rw [if_neg hc, ih, List.count_cons_of_ne hc]

/-- The line on which a text ends starts after the last line feed of the text. -/
theorem getD_starts (front back : List Char) :
    (0 :: startsAfter 0 (front ++ back)).getD (front.count '\n') 0 =
      byteSize (front.rdropWhile (· ≠ '\n')) := by
  induction front using List.reverseRecOn generalizing back with
  | nil => rfl
  | append_singleton front c ih =>
    by_cases hc : c = '\n'
    · subst hc
      have hlength := length_startsAfter front 0
      rw [List.rdropWhile_concat_neg _ _ _ (by simp), List.append_assoc, startsAfter_append,
        List.count_append, List.count_singleton_self, List.getD_cons_succ,
        List.getD_append_right _ _ _ _ (by omega), hlength, Nat.sub_self]
      simp [startsAfter]
    · have hback := ih (c :: back)
      rw [List.rdropWhile_concat_pos _ _ _ (by simpa using hc), List.count_append,
        List.count_singleton, List.append_assoc]
      simpa [hc] using hback

/-- **The position of an offset by counting.** The line is one more than the number of line feeds
before it, and the column one more than the number of bytes since the last of them. -/
theorem position_eq (front back : List Char) :
    (ofChars (front ++ back)).position (byteSize front) =
      ⟨1 + front.count '\n', 1 + byteSize (front.rtakeWhile (· ≠ '\n'))⟩ := by
  have hline := line_position front back
  have hstart := getD_starts front back
  have hsize : byteSize front = byteSize (front.rdropWhile (· ≠ '\n')) +
      byteSize (front.rtakeWhile (· ≠ '\n')) := by
    rw [← byteSize_append, List.rdropWhile_append_rtakeWhile]
  unfold position at hline ⊢
  simp only [Position.mk.injEq] at hline ⊢
  refine ⟨hline, ?_⟩
  have hget : (ofChars (front ++ back)).starts.getD (front.count '\n') 0 =
      byteSize (front.rdropWhile (· ≠ '\n')) := by
    rw [← hstart]
    simp [ofChars]
  rw [hline, Nat.add_sub_cancel_left, hget]
  omega

end LineIndex

end Uncomment
