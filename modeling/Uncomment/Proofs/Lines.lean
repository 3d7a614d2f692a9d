/-
# Lines keep their numbers

Stripping a text never adds or takes away a line feed: each line of the stripped text is what
is left of the line with the same number. The relation that is kept is `Thinned`: a text
without some of its characters, none of them a line feed. What a piece leaves is its text
thinned, and thinned texts put together are thinned.

Key definitions: `Thinned`.
Key theorems: `Thinned.lines`, `Scan.Piece.thinned`, `lines_strip`.
-/
import Mathlib.Data.List.Forall2
import Uncomment.Proofs.Simulation
import Uncomment.Text.Lines

namespace Uncomment

open Text

/-! ### Thinned texts -/

/-- A text without some of its characters, none of them a line feed. -/
inductive Thinned : List Char → List Char → Prop where
  | nil : Thinned [] []
  | keep (c : Char) {xs ys : List Char} : Thinned xs ys → Thinned (c :: xs) (c :: ys)
  | drop {c : Char} {xs ys : List Char} : c ≠ '\n' → Thinned xs ys → Thinned xs (c :: ys)

namespace Thinned

theorem refl : ∀ xs : List Char, Thinned xs xs
  | [] => .nil
  | c :: xs => .keep c (refl xs)

theorem append {xs ys xs' ys' : List Char} (h : Thinned xs ys) (h' : Thinned xs' ys') :
    Thinned (xs ++ xs') (ys ++ ys') := by
  induction h with
  | nil => exact h'
  | keep c _ ih => exact .keep c ih
  | drop hc _ ih => exact .drop hc ih

/-- A text without line feeds can go as a whole. -/
theorem of_not_mem : ∀ {ys : List Char}, '\n' ∉ ys → Thinned [] ys
  | [], _ => .nil
  | c :: ys, h => by
    rw [List.mem_cons, not_or] at h
    exact .drop (Ne.symm h.1) (of_not_mem h.2)

/-- Everything but the line feeds can go. -/
theorem feeds : ∀ ys : List Char, Thinned (List.replicate (ys.count '\n') '\n') ys
  | [] => .nil
  | c :: ys => by
    by_cases hc : c = '\n'
    · subst hc
      rw [List.count_cons_self, List.replicate_succ]
      exact .keep _ (feeds ys)
    · rw [List.count_cons_of_ne hc]
      exact .drop hc (feeds ys)

theorem count {xs ys : List Char} (h : Thinned xs ys) : xs.count '\n' = ys.count '\n' := by
  induction h with
  | nil => rfl
  | keep c _ ih => rw [List.count_cons, List.count_cons, ih]
  | drop hc _ ih => rw [List.count_cons_of_ne hc, ih]

end Thinned

theorem splitLines_cons (c : Char) (cs : List Char) :
    splitLines (c :: cs) = if c = '\n' then [] :: splitLines cs else consPiece c (splitLines cs) :=
  splitOn_cons '\n' c cs

theorem splitLines_ne_nil (cs : List Char) : splitLines cs ≠ [] := splitOn_ne_nil '\n' cs

/-- Each line of a thinned text is left of the line with the same number. -/
theorem Thinned.lines {xs ys : List Char} (h : Thinned xs ys) :
    List.Forall₂ List.Sublist (splitLines xs) (splitLines ys) := by
  induction h with
  | nil => exact .cons (.refl _) .nil
  | @keep c xs ys _ ih =>
    rw [splitLines_cons, splitLines_cons]
    split_ifs
    · exact .cons (.refl _) ih
    · generalize splitLines xs = ps at ih
      generalize splitLines ys = qs at ih
      cases ih with
      | nil => exact .cons (.refl _) .nil
      | cons hline hlines => exact .cons (hline.cons_cons c) hlines
  | @drop c xs ys hc _ ih =>
    rw [splitLines_cons, if_neg hc]
    have hne := splitLines_ne_nil ys
    generalize splitLines xs = ps at ih
    generalize splitLines ys = qs at ih hne
    cases ih with
    | nil => exact absurd rfl hne
    | cons hline hlines => exact .cons (hline.cons c) hlines

theorem getD_of_forall₂ {ps qs : List (List Char)} (h : List.Forall₂ List.Sublist ps qs) :
    ∀ k, (ps.getD k []).Sublist (qs.getD k []) := by
  induction h with
  | nil => exact fun _ => .refl _
  | cons hline _ ih =>
    intro k
    cases k with
    | zero => exact hline
    | succ k => exact ih k

namespace Scan

/-! ### What pieces leave -/

/-- What a lexeme leaves is its text thinned. -/
theorem Fits.thinned {r : Reading} {l : Lexeme} {rest : List Char} (h : Fits r l rest) :
    Thinned l.leaves l.text := by
  cases h with
  | lineComment _ hbody _ _ =>
    exact (Thinned.of_not_mem (by simp [hbody])).append (.refl _)
  | blockComment _ _ => exact .drop (by decide) (.drop (by decide) (.feeds _))
  | _ => exact .refl _

/-- What a piece leaves is its text thinned. -/
theorem Piece.thinned {p : Piece} {r : Reading} {rest : List Char} (hfits : Fits r p.lexeme rest)
    (hsound : p.Sound) : Thinned p.leaves p.text := by
  rw [Piece.leaves]
  split_ifs with herased
  · obtain ⟨-, c, hc, hcode⟩ := hsound herased
    have hfeed : c ≠ '\n' := by
      rintro rfl
      simp at hc
    rw [Piece.text, hcode]
    exact .drop hfeed .nil
  · exact hfits.thinned

theorem thinned_of_pieces : ∀ ps : List Piece, (∀ p ∈ ps, Thinned p.leaves p.text) →
    Thinned (leavesOf ps) (textOf ps)
  | [], _ => .nil
  | p :: ps, h => (h p (by simp)).append (thinned_of_pieces ps (fun q hq => h q (by simp [hq])))

end Scan

/-- A stripped text is its source thinned. -/
theorem thinned_strip (o : ScanOptions) (source : String) :
    Thinned (strip o source).text.toList source.toList := by
  obtain ⟨ps, hfollows, hremovals⟩ := Scan.exists_removals o source.toList
  obtain ⟨htext, hlexed, hsound, -⟩ := Scan.pieces_of_removals hremovals
  have hleaves : (strip o source).text.toList = Scan.leavesOf ps := by
    simp [strip, hfollows.out]
  rw [hleaves, ← htext]
  refine Scan.thinned_of_pieces ps (fun p hp => ?_)
  obtain ⟨r, rest, hfits⟩ := hlexed.fits p hp
  exact Scan.Piece.thinned hfits (hsound p hp)

/-- **Lines keep their numbers.** A stripped text has as many lines as its source, and as many
line feeds, and each of its lines is left of the line with the same number. -/
theorem lines_strip (o : ScanOptions) (source : String) :
    (splitLines (strip o source).text.toList).length = (splitLines source.toList).length ∧
      (strip o source).text.toList.count '\n' = source.toList.count '\n' ∧
      ∀ k, ((splitLines (strip o source).text.toList).getD k []).Sublist
        ((splitLines source.toList).getD k []) := by
  have hthinned := thinned_strip o source
  exact ⟨hthinned.lines.length_eq, hthinned.count, getD_of_forall₂ hthinned.lines⟩

end Uncomment
