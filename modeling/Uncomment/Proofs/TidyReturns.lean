/-
# Tidying and the two conventions for line ends

A text with a carriage return before each line feed is tidied like the one without them: it makes
no difference whether the carriage returns are put in before or after. A line feed is written at the
start of a row and its carriage return at the end of the line before, so the two texts are compared
with one carriage return in front: `'\r'` and the rows of the one are the rows of the other with
carriage returns (`rows_crlf`). A blank line that is dropped takes its carriage return along, and
the one before it is then followed by the next row.

Key theorems: `row_return`, `rows_crlf`, `tidy_crlf`.
-/
import Uncomment.Proofs.LineEndings
import Uncomment.Proofs.Retidying

namespace Uncomment

open Text

/-! ### Rows -/

section Row

variable {line : List Char} (hreturn : '\r' ∉ line)
include hreturn

theorem splitReturn_of_notMem : splitReturn line = (line, []) :=
  splitReturn_of_ne fun hlast => hreturn (List.mem_of_getLast? hlast)

theorem blankLine_return : blankLine (line ++ ['\r']) = blankLine line := by
  rw [blankLine, blankLine, splitReturn_return, splitReturn_of_notMem hreturn]

theorem trimLine_return : trimLine (line ++ ['\r']) = trimLine line ++ ['\r'] := by
  rw [trimLine, trimLine, splitReturn_return, splitReturn_of_notMem hreturn, List.append_nil]

theorem nextRun_return (run : Nat) : nextRun run (line ++ ['\r']) = nextRun run line := by
  rw [nextRun, nextRun, blankLine_return hreturn]

/-- A carriage return at the end of a line stays if the line does. -/
theorem row_return (hfeed : '\n' ∉ line) (run : Nat) :
    '\r' :: row run (line ++ ['\r']) = crlf (row run line) ++ ['\r'] := by
  unfold row
  rw [blankLine_return hreturn, splitReturn_return, splitReturn_of_notMem hreturn,
    trimLine_return hreturn]
  split_ifs
  · rfl
  · rfl
  · have htrim : '\n' ∉ trimLine line := fun hmem => hfeed (mem_of_mem_trimLine hmem)
    rw [crlf_feed, crlf_of_notMem htrim, List.cons_append, List.cons_append]

end Row

/-- **The rows of a text with carriage returns are those of the text, with carriage returns.** -/
theorem rows_crlf {c : Char} (hc : Solid c) (run : Nat) {front : List Char} (h : '\r' ∉ front) :
    '\r' :: rows run (crlf (front ++ [c])) = crlf (rows run (front ++ [c])) := by
  induction front using line_induction generalizing run with
  | hlast line hmem =>
    have hline : '\n' ∉ line ++ [c] := by
      simp [hmem, (hc.ne (d := '\n') (by decide)).symm]
    rw [crlf_of_notMem hline, rows_solid hc run hmem, resume_nil, List.cons_append, crlf_feed,
      crlf_of_notMem hline]
  | hline line front hmem ih =>
    rw [List.mem_append, List.mem_cons, not_or, not_or] at h
    have hreturned : '\n' ∉ line ++ ['\r'] := by simp [hmem]
    have htext : crlf (line ++ '\n' :: front ++ [c]) =
        line ++ ['\r'] ++ '\n' :: crlf (front ++ [c]) := by
      rw [List.append_assoc, List.cons_append, crlf_append, crlf_feed, crlf_of_notMem hmem]
      simp
    rw [htext, rows_line run hreturned, nextRun_return h.1, ← List.cons_append,
      row_return h.1 hmem, List.append_assoc, List.singleton_append, ih _ h.2.2, ← crlf_append,
      ← rows_line run hmem, List.append_assoc, List.cons_append]

theorem tidyLines_crlf {c : Char} (hc : Solid c) {front : List Char} (h : '\r' ∉ front) :
    tidyLines (crlf (front ++ [c])) = crlf (tidyLines (front ++ [c])) := by
  have hrows := rows_crlf hc 0 h
  rw [rows_zero, rows_zero, crlf_feed] at hrows
  exact (List.cons.inj (List.cons.inj hrows).2).2

/-! ### The end of a text -/

theorem finalTerminator_crlf {cs : List Char} (h : '\n' ∈ cs) :
    finalTerminator (crlf cs) = ['\r', '\n'] := by
  obtain ⟨front, back, rfl⟩ := List.append_of_mem h
  refine if_pos (hasCrlf_eq_true.mpr ⟨crlf front, crlf back, ?_⟩)
  rw [crlf_append, crlf_feed]
  simp

theorem finalTerminator_of_notMem {cs : List Char} (h : '\r' ∉ cs) :
    finalTerminator cs = ['\n'] := by
  refine if_neg fun hcrlf => h ?_
  exact (hasCrlf_eq_true.mp hcrlf).subset List.mem_cons_self

theorem blank_crlf {cs : List Char} (h : ∀ c ∈ cs, isBlank c = true) :
    ∀ d ∈ crlf cs, isBlank d = true := by
  intro d hd
  obtain ⟨c, hc, hd⟩ := List.mem_flatMap.mp hd
  split_ifs at hd
  · rcases List.mem_pair.mp hd with rfl | rfl <;> decide
  · cases List.mem_singleton.mp hd
    exact h _ hc

theorem tidyChars_crlf {cs : List Char} (hreturn : '\r' ∉ cs) (hfeed : '\n' ∈ cs) :
    tidyChars (crlf cs) = crlf (tidyChars cs) := by
  rcases blank_or_solid cs with hblank | ⟨front, c, tail, hcs, hc, htail⟩
  · rw [tidyChars_blank hblank, tidyChars_blank (blank_crlf hblank)]
    rfl
  · have hfront : '\r' ∉ front := fun hmem => hreturn (by simp [hcs, hmem])
    have hsplit : crlf cs = crlf front ++ c :: crlf tail := by
      rw [hcs, crlf_append, crlf_cons (hc.ne (by decide))]
    have hbody : crlf front ++ [c] = crlf (front ++ [c]) := by
      rw [crlf_append, crlf_cons (hc.ne (by decide)), crlf_nil]
    have hplain : tidyChars cs = tidyLines (front ++ [c]) ++ ['\n'] := by
      rw [hcs, tidyChars_solid hc front htail, ← hcs, finalTerminator_of_notMem hreturn]
    rw [hplain, hsplit, tidyChars_solid hc (crlf front) (blank_crlf htail), ← hsplit,
      finalTerminator_crlf hfeed, hbody, tidyLines_crlf hc hfront, crlf_append]
    rfl

/-- **Tidying commutes with the conversion of line ends.** -/
theorem tidy_crlf (text : String) (hreturn : '\r' ∉ text.toList) (hfeed : '\n' ∈ text.toList) :
    tidy (String.ofList (crlf text.toList)) = String.ofList (crlf (tidy text).toList) := by
  rw [tidy, tidy, String.toList_ofList, String.toList_ofList, tidyChars_crlf hreturn hfeed]

/-- Trailing spaces and tabs, a run of four blank lines with an ideographic space among them, and a
last line without a line feed. -/
theorem tidy_crlf_blank_lines :
    '\r' ∉ "\na \n\n \n\u3000\n\nb\t\n \nc ".toList ∧
      '\n' ∈ "\na \n\n \n\u3000\n\nb\t\n \nc ".toList ∧
      tidy (String.ofList (crlf "\na \n\n \n\u3000\n\nb\t\n \nc ".toList)) =
        String.ofList (crlf (tidy "\na \n\n \n\u3000\n\nb\t\n \nc ").toList) :=
  ⟨by decide, by decide, tidy_crlf _ (by decide) (by decide)⟩

end Uncomment
