/-
# Tidying a tidied text

Tidying a text twice is tidying it once, but for stray carriage returns. A carriage return before
trailing spaces is not at the end of its line; once the spaces are gone it is, and the line and the
end of the text are taken to end with a carriage return. If no line of a text ends so
(`keepsReturns`), its rows are rows of themselves (`rows_rows`), and its tidied form has the same
terminator. So it is if the text holds no carriage return before spaces and tabs at the end of a
line at all (`strayReturn`).

Key definitions: `keepsReturns`, `strayReturn`.
Key theorems: `tidyChars_tidyChars`, `tidy_tidy`.
-/
import Uncomment.Proofs.TidyLines

namespace Uncomment

open Text

/-! ### Carriage returns -/

theorem hasCrlf_eq_true {cs : List Char} : hasCrlf cs = true ↔ ['\r', '\n'] <:+: cs := by
  fun_induction hasCrlf cs with
  | case1 => simp
  | case2 c => simp [List.infix_cons_iff]
  | case3 c d cs ih =>
    rw [Bool.or_eq_true, ih, @List.infix_cons_iff _ _ c, Bool.and_eq_true, beq_iff_eq, beq_iff_eq,
      List.cons_prefix_cons, List.cons_prefix_cons, eq_comm (a := c), eq_comm (a := d)]
    simp

theorem hasCrlf_line {line : List Char} (h : '\n' ∉ line) (cs : List Char) :
    hasCrlf (line ++ '\n' :: cs) = (line.getLast? == some '\r' || hasCrlf cs) := by
  have hfeed : hasCrlf ('\n' :: cs) = hasCrlf cs := by
    cases cs <;> simp [hasCrlf]
  induction line with
  | nil => simpa using hfeed
  | cons c line ih =>
    rw [List.mem_cons, not_or] at h
    cases line with
    | nil => simp [hasCrlf, hfeed]
    | cons d line =>
      have hd : d ≠ '\n' := fun hd => h.2 (by simp [hd])
      rw [List.getLast?_cons_cons, ← ih h.2]
      simp [hasCrlf, hd]

theorem hasCrlf_of_append {xs ys : List Char} (h : hasCrlf (xs ++ ys) = false) :
    hasCrlf xs = false := by
  rw [Bool.eq_false_iff, Ne, hasCrlf_eq_true] at h ⊢
  exact fun hinner => h (hinner.trans (List.infix_append' [] xs ys))

/-! ### Lines -/

/-- Whether a line is blank, or its trimmed form ends with a carriage return only if it does. -/
def keepsReturn (line : List Char) : Bool :=
  blankLine line || (trimLine line).getLast? != some '\r' || line.getLast? == some '\r'

/-- Whether no carriage return comes to the end of a line when it is trimmed, the last line apart.
-/
def keepsReturns (cs : List Char) : Bool := (splitLines cs).dropLast.all keepsReturn

theorem splitLines_dropLast_append (xs ys : List Char) :
    (splitLines xs).dropLast <+: (splitLines (xs ++ ys)).dropLast := by
  induction xs using line_induction with
  | hlast line hmem => simp [splitLines_of_notMem hmem]
  | hline line xs hmem ih =>
    rw [List.append_assoc, List.cons_append, splitLines_line hmem, splitLines_line hmem,
      List.dropLast_cons_of_ne_nil (splitLines_ne_nil _),
      List.dropLast_cons_of_ne_nil (splitLines_ne_nil _), List.cons_prefix_cons]
    exact ⟨rfl, ih⟩

theorem keepsReturns_of_append {xs ys : List Char} (h : keepsReturns (xs ++ ys) = true) :
    keepsReturns xs = true := by
  rw [keepsReturns, List.all_eq_true] at h ⊢
  exact fun line hline => h line ((splitLines_dropLast_append xs ys).subset hline)

theorem keepsReturns_line {line : List Char} (hmem : '\n' ∉ line) {cs : List Char} :
    keepsReturns (line ++ '\n' :: cs) = (keepsReturn line && keepsReturns cs) := by
  rw [keepsReturns, splitLines_line hmem, List.dropLast_cons_of_ne_nil (splitLines_ne_nil _),
    List.all_cons, keepsReturns]

theorem trimEnd_trimEnd (p : Char → Bool) (cs : List Char) :
    trimEnd p (trimEnd p cs) = trimEnd p cs := List.rdropWhile_idempotent p cs

/-- A line is trimmed once and for all, if no carriage return comes to its end. -/
theorem trimLine_trimLine {line : List Char}
    (h : (trimLine line).getLast? ≠ some '\r' ∨ line.getLast? = some '\r') :
    trimLine (trimLine line) = trimLine line := by
  by_cases hreturn : line.getLast? = some '\r'
  · obtain ⟨body, rfl⟩ := List.getLast?_eq_some_iff.mp hreturn
    simp only [trimLine, splitReturn_return, trimEnd_trimEnd]
  · have htrim : trimLine line = trimEnd isSpaceOrTab line := by
      rw [trimLine, splitReturn_of_ne hreturn, List.append_nil]
    have hlast := h.resolve_right hreturn
    rw [htrim] at hlast ⊢
    rw [trimLine, splitReturn_of_ne hlast, List.append_nil, trimEnd_trimEnd]

/-- A line that is not blank does not become blank. -/
theorem blankLine_trimLine {line : List Char} (h : blankLine line = false) :
    blankLine (trimLine line) = false := by
  rcases blank_or_solid (splitReturn line).1 with hblank | ⟨front, c, tail, hline, hc, -⟩
  · rw [blankLine, allBlank, List.all_eq_true.mpr hblank] at h
    cases h
  · rw [← splitReturn_append line, hline, List.append_assoc, List.cons_append, trimLine_solid hc]
    exact blankLine_solid hc _ _

/-- What is left of a blank line is a blank line of its own. -/
theorem blankLine_splitReturn (line : List Char) :
    blankLine (splitReturn line).2 = true ∧
      (splitReturn (splitReturn line).2).2 = (splitReturn line).2 := by
  rcases splitReturn_snd line with hending | hending <;> rw [hending] <;> decide

/-! ### Rows -/

theorem row_of_le {run run' : Nat} (h : maxBlankLines ≤ run) (h' : maxBlankLines ≤ run')
    (line : List Char) : row run line = row run' line := by
  rw [row, row, if_neg (Nat.not_lt.mpr h), if_neg (Nat.not_lt.mpr h')]

/-- After two blank lines it does not matter how many they are. -/
theorem rows_of_le {run run' : Nat} (h : maxBlankLines ≤ run) (h' : maxBlankLines ≤ run')
    (cs : List Char) : rows run cs = rows run' cs := by
  induction cs using line_induction generalizing run run' with
  | hlast line hmem => rw [rows_last run hmem, rows_last run' hmem, row_of_le h h']
  | hline line cs hmem ih =>
    rw [rows_line run hmem, rows_line run' hmem, row_of_le h h']
    unfold nextRun
    split_ifs
    · rw [ih (Nat.le_succ_of_le h) (Nat.le_succ_of_le h')]
    · rfl

/-- **The rows of a text are rows of themselves,** and get no carriage returns before line feeds. -/
theorem rows_rows {c : Char} (hc : Solid c) (run : Nat) {front : List Char}
    (h : keepsReturns (front ++ [c]) = true) :
    ∃ cs, rows run (front ++ [c]) = '\n' :: cs ∧ rows run cs = '\n' :: cs ∧
      (hasCrlf (front ++ [c]) = false → hasCrlf cs = false) := by
  induction front using line_induction generalizing run with
  | hlast line hmem =>
    refine ⟨line ++ [c], ?_, ?_, id⟩
    · rw [rows_solid hc run hmem, resume_nil, List.cons_append]
    · rw [rows_solid hc run hmem, resume_nil, List.cons_append]
  | hline line front hmem ih =>
    rw [List.append_assoc, List.cons_append] at h ⊢
    rw [keepsReturns_line hmem, Bool.and_eq_true] at h
    obtain ⟨cs, hrows, hagain, hcrlf⟩ := ih (nextRun run line) h.2
    rw [rows_line run hmem, hrows, hasCrlf_line hmem]
    by_cases hblank : blankLine line = true
    · rw [nextRun, if_pos hblank] at hagain
      rw [row, if_pos hblank]
      split_ifs with hrun
      · obtain ⟨hblank', hending⟩ := blankLine_splitReturn line
        have hmem' : '\n' ∉ (splitReturn line).2 := fun hfeed => hmem (mem_of_mem_splitReturn hfeed)
        refine ⟨(splitReturn line).2 ++ '\n' :: cs, rfl, ?_, ?_⟩
        · rw [rows_line run hmem', row, if_pos hblank', if_pos hrun, hending, nextRun,
            if_pos hblank', hagain, List.cons_append]
        · rw [hasCrlf_line hmem', Bool.or_eq_false_iff, Bool.or_eq_false_iff]
          refine fun h => ⟨?_, hcrlf h.2⟩
          rcases splitReturn_cases line with ⟨-, hline⟩ | ⟨body, rfl, -⟩
          · rw [hline]
            rfl
          · simp at h
      · have hrun := Nat.le_of_not_lt hrun
        refine ⟨cs, rfl, ?_, ?_⟩
        · rw [rows_of_le hrun (Nat.le_succ_of_le hrun), hagain]
        · rw [Bool.or_eq_false_iff]
          exact fun h => hcrlf h.2
    · have hline : (trimLine line).getLast? ≠ some '\r' ∨ line.getLast? = some '\r' := by
        simpa [keepsReturn, hblank] using h.1
      have hmem' : '\n' ∉ trimLine line := fun hfeed => hmem (mem_of_mem_trimLine hfeed)
      have hblank' : ¬ blankLine (trimLine line) = true := by
        simp [blankLine_trimLine (Bool.eq_false_iff.mpr hblank)]
      rw [nextRun, if_neg hblank] at hagain
      rw [row, if_neg hblank]
      refine ⟨trimLine line ++ '\n' :: cs, rfl, ?_, ?_⟩
      · rw [rows_line run hmem', row, if_neg hblank', nextRun, if_neg hblank',
          trimLine_trimLine hline, hagain, List.cons_append]
      · rw [hasCrlf_line hmem', Bool.or_eq_false_iff, Bool.or_eq_false_iff]
        refine fun h => ⟨?_, hcrlf h.2⟩
        have hlast : line.getLast? ≠ some '\r' := by simpa using h.1
        simpa using hline.resolve_right hlast

/-! ### The end of a text -/

theorem isBlank_of_mem_finalTerminator {cs : List Char} {c : Char} (h : c ∈ finalTerminator cs) :
    isBlank c = true := by
  unfold finalTerminator at h
  split_ifs at h
  · rcases (by simpa using h : c = '\r' ∨ c = '\n') with rfl | rfl <;> decide
  · cases List.mem_singleton.mp h
    decide

/-- The terminator stays, if there is no more of it in front. -/
theorem finalTerminator_append {c : Char} (hc : Solid c) {cs front : List Char}
    (h : hasCrlf cs = false → hasCrlf (front ++ [c]) = false) :
    finalTerminator (front ++ [c] ++ finalTerminator cs) = finalTerminator cs := by
  by_cases hcrlf : hasCrlf cs = true
  · have hend : finalTerminator cs = ['\r', '\n'] := if_pos hcrlf
    rw [hend]
    refine if_pos (hasCrlf_eq_true.mpr ?_)
    exact (List.suffix_append (front ++ [c]) ['\r', '\n']).isInfix
  · have hend : finalTerminator cs = ['\n'] := if_neg hcrlf
    rw [hend]
    refine if_neg fun hcrlf' => ?_
    rw [hasCrlf_eq_true, List.infix_concat_iff] at hcrlf'
    rcases hcrlf' with hsuffix | hinner
    · obtain ⟨xs, hxs⟩ := hsuffix
      rw [List.append_cons] at hxs
      have hfront : xs ++ ['\r'] = front ++ [c] := (List.append_inj' hxs rfl).1
      have hlast : '\r' = c := List.singleton_inj.mp (List.append_inj' hfront rfl).2
      exact hc.ne (by decide) hlast.symm
    · rw [hasCrlf_eq_true.mpr hinner] at h
      cases h (Bool.eq_false_iff.mpr hcrlf)

/-- **Tidying a text twice is tidying it once,** if no carriage return comes to the end of a line
when it is trimmed. -/
theorem tidyChars_tidyChars {cs : List Char} (h : keepsReturns cs = true) :
    tidyChars (tidyChars cs) = tidyChars cs := by
  rcases blank_or_solid cs with hblank | ⟨front, c, tail, rfl, hc, htail⟩
  · rw [tidyChars_blank hblank]
    rfl
  · have hfront : keepsReturns (front ++ [c]) = true := by
      rw [List.append_cons] at h
      exact keepsReturns_of_append h
    obtain ⟨body, hrows, hagain, hcrlf⟩ := rows_rows hc 0 hfront
    rw [rows_zero, List.cons.injEq] at hrows hagain
    obtain ⟨kept, hkept⟩ := tidyLines_end hc front
    obtain rfl : kept ++ [c] = body := hkept.symm.trans hrows.2
    have hnone : hasCrlf (front ++ c :: tail) = false → hasCrlf (kept ++ [c]) = false := by
      intro hnone
      rw [List.append_cons] at hnone
      exact hcrlf (hasCrlf_of_append hnone)
    have hterm := finalTerminator_append hc hnone
    rw [tidyChars_solid hc front htail, hkept]
    generalize htail' : finalTerminator (front ++ c :: tail) = ending at hterm ⊢
    have hending : ∀ d ∈ ending, isBlank d = true := fun d hd =>
      isBlank_of_mem_finalTerminator (htail' ▸ hd)
    rw [← List.append_cons] at hterm ⊢
    rw [tidyChars_solid hc kept hending, hagain.2, hterm, List.append_assoc, List.singleton_append]

/-! ### Stray carriage returns -/

/-- Whether a carriage return comes before spaces and tabs, one at least, at the end of a line. -/
def strayReturn : List Char → Bool
  | [] => false
  | c :: cs =>
    (c == '\r' && cs.head?.any isSpaceOrTab && (cs.dropWhile isSpaceOrTab).head? == some '\n') ||
      strayReturn cs

theorem strayReturn_append (front : List Char) {back : List Char} (h : strayReturn back = true) :
    strayReturn (front ++ back) = true := by
  induction front with
  | nil => exact h
  | cons c front ih => rw [List.cons_append, strayReturn, ih, Bool.or_true]

theorem strayReturn_gap {gap : List Char} (hne : gap ≠ []) (h : ∀ c ∈ gap, isSpaceOrTab c = true)
    (cs : List Char) : strayReturn ('\r' :: (gap ++ '\n' :: cs)) = true := by
  have hfeed : isSpaceOrTab '\n' = false := by decide
  have hhead : (gap ++ '\n' :: cs).head?.any isSpaceOrTab = true := by
    obtain ⟨c, gap, rfl⟩ := List.exists_cons_of_ne_nil hne
    exact h c List.mem_cons_self
  rw [strayReturn, hhead, List.dropWhile_append_of_pos h]
  simp [hfeed]

/-- A line that gets a carriage return at its end by trimming has a stray one. -/
theorem keepsReturn_of_strayReturn {line : List Char} {cs : List Char}
    (h : strayReturn (line ++ '\n' :: cs) = false) : keepsReturn line = true := by
  by_contra hkeeps
  simp only [keepsReturn, Bool.or_eq_true, bne_iff_ne, beq_iff_eq, not_or, not_not] at hkeeps
  obtain ⟨⟨-, htrimmed⟩, hlast⟩ := hkeeps
  obtain ⟨front, gap, ending, rfl, htrim, hgap, hending⟩ := trimLine_cases line
  rcases hending with rfl | rfl
  · rw [htrim, List.append_nil] at htrimmed
    obtain ⟨front, rfl⟩ := List.getLast?_eq_some_iff.mp htrimmed
    have hne : gap ≠ [] := fun hnil => hlast (by rw [hnil]; simp)
    have htext : front ++ ['\r'] ++ gap ++ [] ++ '\n' :: cs =
        front ++ '\r' :: (gap ++ '\n' :: cs) := by
      simp
    rw [htext, strayReturn_append front (strayReturn_gap hne hgap cs)] at h
    cases h
  · exact hlast List.getLast?_concat

theorem keepsReturns_of_strayReturn {cs : List Char} (h : strayReturn cs = false) :
    keepsReturns cs = true := by
  induction cs using line_induction with
  | hlast line hmem => simp [keepsReturns, splitLines_of_notMem hmem]
  | hline line cs hmem ih =>
    have hrest : strayReturn cs = false := by
      by_contra hstray
      rw [Bool.not_eq_false] at hstray
      rw [List.append_cons, strayReturn_append _ hstray] at h
      cases h
    rw [keepsReturns_line hmem, keepsReturn_of_strayReturn h, ih hrest, Bool.and_self]

/-- **Tidying is idempotent** on texts without stray carriage returns. -/
theorem tidy_tidy (text : String) (h : strayReturn text.toList = false) :
    tidy (tidy text) = tidy text := by
  rw [tidy, tidy, String.toList_ofList, tidyChars_tidyChars (keepsReturns_of_strayReturn h)]

/-- Line ends of both kinds, a carriage return within a line, a run of blank lines with a
no-break space among them, and spaces and tabs at the end. -/
theorem tidy_tidy_mixed :
    strayReturn " a\rb \t\r\n\n \n\u00a0\r\n\nc\r\r\nd\r \t".toList = false ∧
      tidy (tidy " a\rb \t\r\n\n \n\u00a0\r\n\nc\r\r\nd\r \t") =
        tidy " a\rb \t\r\n\n \n\u00a0\r\n\nc\r\r\nd\r \t" :=
  ⟨by decide, tidy_tidy _ (by decide)⟩

end Uncomment
