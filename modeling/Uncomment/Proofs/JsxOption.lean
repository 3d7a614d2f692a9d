/-
# The option that takes braces away affects braces only

With and without the option, a text is read in the same way: the diagnostics are the same, and
so are the counts, but for comments alone in braces, which count as block comments when the
braces stay. The text with the option on is the text with the option off, rewritten once for
each such comment: an opening brace, line feeds and a closing brace, with spaces and tabs in
between, become the line feeds. So braces go in matched pairs that enclose nothing but white
space.

Key definitions: `Unbraced`, `DiffersInBraces`.
Key theorems: `Scan.Removal.unbraced`, `strip_jsxComments`.
-/
import Uncomment.Proofs.Simulation

namespace Uncomment

open Text

/-- Taking a pair of braces away that encloses nothing but line feeds, spaces and tabs: the line
feeds are left. -/
inductive Unbraced : List Char → List Char → Prop where
  | intro (before after : List Char) {h₁ h₂ h₃ feeds : List Char} :
      (∀ c ∈ h₁, isSpaceOrTab c = true) → (∀ c ∈ h₂, isSpaceOrTab c = true) →
      (∀ c ∈ h₃, isSpaceOrTab c = true) → (∀ c ∈ feeds, c = '\n') →
      Unbraced (before ++ h₁ ++ '{' :: h₂ ++ feeds ++ h₃ ++ '}' :: after) (before ++ feeds ++ after)

namespace Scan

/-- A removal from pieces takes a pair of braces away from what they leave. -/
theorem Removal.unbraced {ps qs : List Piece} (h : Removal ps qs) :
    Unbraced (leavesOf ps) (leavesOf qs) := by
  obtain ⟨body, after, -, hgap, hgap', hblanks⟩ := h
  rename_i before gap gap' blanks
  have hidle : ∀ p ∈ blanks, p.Idle := fun p hp => Or.inr (hblanks p hp)
  have hfeeds : ∀ c ∈ List.replicate (body.count '\n') '\n', c = '\n' := fun c hc =>
    (List.mem_replicate.mp hc).2
  have hunbraced := Unbraced.intro (leavesOf before) (leavesOf after) (blank_of_idle hgap)
    (blank_of_idle hgap') (blank_of_idle hidle) hfeeds
  simpa [leavesOf_bracedSpan, leavesOf_strike_bracedSpan body hgap hgap' hidle] using hunbraced

/-- What a scan that keeps braces writes is what the pieces leave. -/
theorem leaves_pieces (cs : List Char) :
    (run keepBraces { rest := cs }).out.reverse =
      leavesOf (pieces keepBraces { rest := cs }) := by
  obtain ⟨ps, hfollows, hremovals⟩ := exists_removals keepBraces cs
  rw [jsxComments_keepBraces] at hremovals
  cases hremovals
  rw [hfollows.out, List.reverse_reverse]

/-- Scans that follow each other to the end report the same faults. -/
theorem Follows.allFaults {s t : State} {ps : List Piece} (h : Follows s t ps) :
    s.allFaults = t.allFaults := by
  simp only [State.allFaults, State.openFaults, h.faults, h.frames, h.pos]

end Scan

/-- What a result with the option on and one with the option off have in common, and how the
first is made from the second. -/
structure DiffersInBraces (on off : Stripped) : Prop where
  diagnostics : on.diagnostics = off.diagnostics
  lineComments : on.stats.lineComments = off.stats.lineComments
  directives : on.stats.directives = off.stats.directives
  jsxComments : off.stats.jsxComments = 0
  blockComments : off.stats.blockComments = on.stats.blockComments + on.stats.jsxComments
  /-- One pair of braces is taken away for each comment that is counted with its braces. -/
  text : Repeated Unbraced on.stats.jsxComments off.text.toList on.text.toList

/-- **The option affects braces only.** The two scans of a text read the same lexemes, although
one of them passes over closing braces that the other takes note of, and although a pair of
braces may enclose nothing but white space only because others were taken away before. -/
theorem strip_jsxComments (source : String) :
    DiffersInBraces (strip { jsxComments := true } source)
      (strip { jsxComments := false } source) := by
  obtain ⟨ps, hfollows, hremovals⟩ := Scan.exists_removals { jsxComments := true } source.toList
  have hstats : (strip { jsxComments := false } source).stats =
      Scan.mergedStats (strip { jsxComments := true } source).stats := hfollows.stats
  have hon : (strip { jsxComments := true } source).text.toList = Scan.leavesOf ps := by
    simp [strip, hfollows.out]
  have hoff : (strip { jsxComments := false } source).text.toList =
      Scan.leavesOf (Scan.pieces Scan.keepBraces { rest := source.toList }) := by
    simp [strip, ← Scan.leaves_pieces]
  refine ⟨?_, ?_, ?_, ?_, ?_, ?_⟩
  · simp only [strip, hfollows.allFaults]
  · rw [hstats]
    rfl
  · rw [hstats]
    rfl
  · rw [hstats]
    rfl
  · rw [hstats]
    rfl
  · rw [hon, hoff]
    exact hremovals.map Scan.leavesOf (fun _ _ h => h.unbraced)

end Uncomment
