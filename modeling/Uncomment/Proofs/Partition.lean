/-
# A text is cut into typed pieces

Every text, well formed or not, is cut into pieces that cover it exactly once and in order:
characters of code, strings, regular expressions, the marks and the text of templates,
directives, line comments and block comments. Each piece fits the description of its kind at
the place at which it stands, so comments and literals start in code only. There is no other
way to cut the text into pieces that fit.

The stripped text is what the pieces leave, one after the other. The only characters of code
that are missing are braces, spaces and tabs at top level, erased around block comments that
stand alone in braces, and each such removal is one that was counted.

Key theorems: `strip_partition`.
-/
import Uncomment.Proofs.Simulation
import Uncomment.Proofs.Unique

namespace Uncomment

namespace Scan

/-- **A text is cut into typed pieces, and the stripped text is what they leave.** The pieces
cover the text, each fits the description of its kind at its place, and no other pieces do. What
is erased is code at top level, by as many removals as there are comments counted with their
braces. -/
theorem strip_partition (o : ScanOptions) (source : String) :
    ∃ ps : List Piece,
      textOf ps = source.toList ∧ Lexed {} ps ∧
      (∀ qs, textOf qs = source.toList → Lexed {} qs →
        qs.map Piece.restored = ps.map Piece.restored) ∧
      (strip o source).text.toList = leavesOf ps ∧
      Repeated Removal (strip o source).stats.jsxComments (ps.map Piece.restored) ps ∧
      (∀ p ∈ ps, p.erased = true →
        p.place = .topLevel ∧ ∃ c, c ∈ ['{', '}', ' ', '\t'] ∧ p.lexeme = .code c) ∧
      (o.jsxComments = false → ∀ p ∈ ps, p.erased = false) := by
  obtain ⟨ps, hfollows, hremovals⟩ := exists_removals o source.toList
  obtain ⟨htext, hlexed, hsound, hrestored⟩ := pieces_of_removals hremovals
  refine ⟨ps, htext, hlexed, ?_, ?_, ?_, hsound, ?_⟩
  · intro qs hqs hlexed'
    have hstart : State.reading { rest := source.toList } = {} := rfl
    rw [← hstart] at hlexed hlexed'
    exact hlexed'.unique hlexed hqs htext
  · simp [strip, hfollows.out]
  · rw [hrestored]
    exact hremovals
  · intro hjsx p hp
    obtain rfl : o = keepBraces := by
      cases o
      exact congrArg ScanOptions.mk hjsx
    rw [jsxComments_keepBraces] at hremovals
    cases hremovals
    rw [← hrestored] at hp
    obtain ⟨q, -, rfl⟩ := List.mem_map.mp hp
    rfl

end Scan

end Uncomment
