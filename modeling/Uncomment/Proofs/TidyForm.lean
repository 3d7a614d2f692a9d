/-
# What a tidied text looks like

Tidying keeps the contents of a text and fixes its form. Of each line that is not blank all but the
blanks at its end stays, in the same order, and of the blank lines before it two at most. What is
left of a blank line is a carriage return or nothing, no line ends with a space or a tab, and the
text ends with its last character that is not blank and one terminator.

All of this is read off the lines of the tidied text: up to the last line that is not blank they
are the lines that are kept, and then come that line, with a carriage return if the text has any
before a line feed, and the empty line behind its line feed (`splitLines_tidyChars`).

Key definitions: `spacedLines`, `TidyForm`.
Key theorems: `splitLines_tidyChars`, `spacedLines_keepLines`, `tidy_form`.
-/
import Uncomment.Proofs.Reach
import Uncomment.Proofs.Retidying

namespace Uncomment

open Text

/-! ### Lines and their characters -/

theorem mem_of_mem_splitLines {cs line : List Char} (hline : line ∈ splitLines cs) {c : Char}
    (hc : c ∈ line) : c ∈ cs := by
  induction cs using line_induction with
  | hlast last hmem =>
    rw [splitLines_of_notMem hmem, List.mem_singleton] at hline
    exact hline ▸ hc
  | hline first cs hmem ih =>
    rw [splitLines_line hmem, List.mem_cons] at hline
    rw [List.mem_append, List.mem_cons]
    rcases hline with rfl | hline
    · exact .inl hc
    · exact .inr (.inr (ih hline))

/-- The lines of a text that is made of lines are these lines. -/
theorem splitLines_joinLines {lines : List (List Char)} (hne : lines ≠ [])
    (h : ∀ line ∈ lines, '\n' ∉ line) : splitLines (joinLines lines) = lines := by
  induction lines with
  | nil => exact absurd rfl hne
  | cons line lines ih =>
    have hline := h line List.mem_cons_self
    cases lines with
    | nil =>
      rw [joinLines_cons, List.flatMap_nil, List.append_nil]
      exact splitLines_of_notMem hline
    | cons next lines =>
      have hjoin : joinLines (line :: next :: lines) =
          line ++ '\n' :: joinLines (next :: lines) := by
        simp [joinLines_cons]
      rw [hjoin, splitLines_line hline,
        ih (List.cons_ne_nil _ _) fun l hl => h l (List.mem_cons_of_mem _ hl)]

theorem joinLines_concat_feed (lines : List (List Char)) (line ending : List Char) :
    joinLines (lines ++ [line]) ++ (ending ++ ['\n']) =
      joinLines (lines ++ [line ++ ending, []]) := by
  cases lines with
  | nil => simp [joinLines_cons]
  | cons first lines => simp [joinLines_cons]

/-- The lines of a text up to its last character that is not blank, and behind it. -/
theorem splitLines_solid {c : Char} (hc : Solid c) (text : List Char) {tail : List Char}
    (htail : ∀ d ∈ tail, isBlank d = true) :
    ∃ lines front back blanks,
      splitLines (text ++ c :: tail) = lines ++ (front ++ c :: back) :: blanks ∧
      splitLines (text ++ [c]) = lines ++ [front ++ [c]] ∧
      (∀ d ∈ back, isBlank d = true) ∧ ∀ line ∈ blanks, ∀ d ∈ line, isBlank d = true := by
  induction text using line_induction with
  | hlast text hmem =>
    have hsolid : ∀ back, '\n' ∉ back → '\n' ∉ text ++ c :: back := fun back hback => by
      simp [hmem, hback, (hc.ne (d := '\n') (by decide)).symm]
    have hfirst := splitLines_of_notMem (hsolid [] List.not_mem_nil)
    induction tail using line_induction with
    | hlast back hback =>
      exact ⟨[], text, back, [], splitLines_of_notMem (hsolid back hback), hfirst, htail, by simp⟩
    | hline back rest hback _ =>
      refine ⟨[], text, back, splitLines rest, ?_, hfirst, fun d hd => htail d (by simp [hd]), ?_⟩
      · rw [← List.cons_append, ← List.append_assoc, splitLines_line (hsolid back hback)]
        rfl
      · intro line hline d hd
        exact htail d (by simp [mem_of_mem_splitLines hline hd])
  | hline line text hmem ih =>
    obtain ⟨lines, front, back, blanks, hlines, hshort, hback, hblanks⟩ := ih
    refine ⟨line :: lines, front, back, blanks, ?_, ?_, hback, hblanks⟩
    · rw [List.append_assoc, List.cons_append, splitLines_line hmem, hlines]
      rfl
    · rw [List.append_assoc, List.cons_append, splitLines_line hmem, hshort]
      rfl

/-! ### The lines that are kept -/

/-- A line is blank whether or not the carriage return at its end is looked at. -/
theorem allBlank_eq_blankLine (line : List Char) : allBlank line = blankLine line := by
  have hreturn : isBlank '\r' = true := by decide
  rcases splitReturn_cases line with ⟨-, hline⟩ | ⟨body, rfl, hline⟩
  · rw [blankLine, hline]
  · rw [blankLine, hline]
    simp [allBlank, hreturn]

/-- A line that is not blank stays, whatever comes before it. -/
theorem keepLines_concat {line : List Char} (h : blankLine line = false)
    (lines : List (List Char)) (run : Nat) :
    keepLines run (lines ++ [line]) = keepLines run lines ++ [trimLine line] := by
  induction lines generalizing run with
  | nil => simp [keepLines_eq, keptLine, h, keepLines]
  | cons first lines ih => rw [List.cons_append, keepLines_eq, keepLines_eq, ih, List.append_assoc]

/-- A line that is kept is left of a line of the text. -/
theorem mem_keepLines {run : Nat} {lines : List (List Char)} {kept : List Char}
    (h : kept ∈ keepLines run lines) :
    ∃ line ∈ lines, blankLine line = true ∧ kept = (splitReturn line).2 ∨
      blankLine line = false ∧ kept = trimLine line := by
  induction lines generalizing run with
  | nil => simp [keepLines] at h
  | cons line lines ih =>
    rw [keepLines_eq, List.mem_append] at h
    rcases h with h | h
    · refine ⟨line, List.mem_cons_self, ?_⟩
      unfold keptLine at h
      split_ifs at h with hblank hrun
      · exact .inl ⟨hblank, List.mem_singleton.mp h⟩
      · cases h
      · exact .inr ⟨Bool.eq_false_iff.mpr hblank, List.mem_singleton.mp h⟩
    · obtain ⟨next, hnext, hkept⟩ := ih h
      exact ⟨next, List.mem_cons_of_mem _ hnext, hkept⟩

theorem mem_of_mem_keepLines {run : Nat} {lines : List (List Char)} {kept : List Char}
    (h : kept ∈ keepLines run lines) {c : Char} (hc : c ∈ kept) : ∃ line ∈ lines, c ∈ line := by
  obtain ⟨line, hline, ⟨-, rfl⟩ | ⟨-, rfl⟩⟩ := mem_keepLines h
  · exact ⟨line, hline, mem_of_mem_splitReturn hc⟩
  · exact ⟨line, hline, mem_of_mem_trimLine hc⟩

/-- What is left of a blank line is a carriage return or nothing. -/
theorem eq_of_mem_keepLines_of_blank {run : Nat} {lines : List (List Char)} {kept : List Char}
    (h : kept ∈ keepLines run lines) (hblank : allBlank kept = true) :
    kept = [] ∨ kept = ['\r'] := by
  obtain ⟨line, -, ⟨-, rfl⟩ | ⟨hline, rfl⟩⟩ := mem_keepLines h
  · exact splitReturn_snd line
  · rw [allBlank_eq_blankLine, blankLine_trimLine hline] at hblank
    cases hblank

/-! ### The lines of a tidied text -/

theorem finalTerminator_eq (cs : List Char) :
    ∃ ending, (ending = [] ∨ ending = ['\r']) ∧ finalTerminator cs = ending ++ ['\n'] := by
  unfold finalTerminator
  split_ifs
  · exact ⟨['\r'], .inr rfl, rfl⟩
  · exact ⟨[], .inl rfl, rfl⟩

/-- **The lines of a tidied text** are those that are kept up to the last line that is not blank,
that line up to its last character that is not, and the empty line behind the terminator. -/
theorem splitLines_tidyChars {c : Char} (hc : Solid c) {text tail front : List Char}
    {lines : List (List Char)} (htail : ∀ d ∈ tail, isBlank d = true)
    (hlines : splitLines (text ++ [c]) = lines ++ [front ++ [c]]) :
    ∃ ending, (ending = [] ∨ ending = ['\r']) ∧
      splitLines (tidyChars (text ++ c :: tail)) =
        keepLines 0 lines ++ [front ++ c :: ending, []] := by
  obtain ⟨ending, hending, hterm⟩ := finalTerminator_eq (text ++ c :: tail)
  have hlast : trimLine (front ++ [c]) = front ++ [c] := trimLine_solid hc front []
  have hkept : tidyLines (text ++ [c]) = joinLines (keepLines 0 lines ++ [front ++ [c]]) := by
    rw [tidyLines, hlines, keepLines_concat (blankLine_solid hc front []), hlast]
  have hfree : ∀ line ∈ lines ++ [front ++ [c]], '\n' ∉ line := fun line hline =>
    feed_notMem_of_mem_splitLines (hlines ▸ hline)
  have hlast' : '\n' ∉ front ++ [c] ++ ending := by
    rw [List.mem_append, not_or]
    refine ⟨hfree _ (List.mem_append_right _ List.mem_cons_self), ?_⟩
    rcases hending with rfl | rfl <;> decide
  have hfeed : ∀ line ∈ keepLines 0 lines ++ [front ++ [c] ++ ending, []], '\n' ∉ line := by
    intro line hline hmem
    rcases List.mem_append.mp hline with hline | hline
    · obtain ⟨whole, hwhole, hfeed⟩ := mem_of_mem_keepLines hline hmem
      exact hfree whole (List.mem_append_left _ hwhole) hfeed
    · rcases List.mem_pair.mp hline with rfl | rfl
      · exact hlast' hmem
      · cases hmem
  refine ⟨ending, hending, ?_⟩
  rw [tidyChars_solid hc text htail, hterm, hkept, joinLines_concat_feed,
    splitLines_joinLines (by simp) hfeed, List.append_assoc, List.singleton_append]

/-! ### Blank lines and contents -/

/-- The lines that are not blank, without the blanks at their ends, each with the number of blank
lines directly before it; `run` more come before the first one. -/
def spacedLines (run : Nat) : List (List Char) → List (Nat × List Char)
  | [] => []
  | line :: lines =>
    if allBlank line then spacedLines (run + 1) lines
    else (run, trimEnd isBlank line) :: spacedLines 0 lines

theorem map_snd_spacedLines (run : Nat) (lines : List (List Char)) :
    (spacedLines run lines).map Prod.snd =
      (lines.filter (!allBlank ·)).map (trimEnd isBlank) := by
  induction lines generalizing run with
  | nil => rfl
  | cons line lines ih =>
    by_cases hblank : allBlank line = true
    · simp [spacedLines, hblank, ih]
    · simp [spacedLines, hblank, ih]

theorem spacedLines_of_blank {lines : List (List Char)}
    (h : ∀ line ∈ lines, ∀ c ∈ line, isBlank c = true) (run : Nat) :
    spacedLines run lines = [] := by
  induction lines generalizing run with
  | nil => rfl
  | cons line lines ih =>
    have hline : allBlank line = true := List.all_eq_true.mpr (h line List.mem_cons_self)
    rw [spacedLines, if_pos hline, ih fun l hl => h l (List.mem_cons_of_mem _ hl)]

theorem trimEnd_append_blank {back : List Char} (h : ∀ c ∈ back, isBlank c = true)
    (front : List Char) : trimEnd isBlank (front ++ back) = trimEnd isBlank front := by
  rw [trimEnd, List.reverse_append, List.dropWhile_append_of_pos, trimEnd]
  exact fun c hc => h c (List.mem_reverse.mp hc)

theorem isBlank_of_mem_ending {ending : List Char} (h : ending = [] ∨ ending = ['\r']) :
    ∀ c ∈ ending, isBlank c = true := by
  intro c hc
  rcases h with rfl | rfl
  · cases hc
  · cases List.mem_singleton.mp hc
    decide

/-- Trimming a line takes only blanks off its end. -/
theorem trimEnd_trimLine (line : List Char) :
    trimEnd isBlank (trimLine line) = trimEnd isBlank line := by
  obtain ⟨front, gap, ending, hline, htrim, hgap, hending⟩ := trimLine_cases line
  have hblank := isBlank_of_mem_ending hending
  have hgap : ∀ c ∈ gap, isBlank c = true := fun c hc => isBlank_of_isSpaceOrTab (hgap c hc)
  rw [htrim, hline, trimEnd_append_blank hblank, trimEnd_append_blank hblank,
    trimEnd_append_blank hgap]

/-- A line that ends a text, without the blanks behind its last character. -/
theorem spacedLines_last {c : Char} (hc : Solid c) (run : Nat) (front : List Char)
    {back : List Char} (hback : ∀ d ∈ back, isBlank d = true) {blanks : List (List Char)}
    (hblanks : ∀ line ∈ blanks, ∀ d ∈ line, isBlank d = true) :
    spacedLines run ((front ++ c :: back) :: blanks) = [(run, front ++ [c])] := by
  have hsolid : allBlank (front ++ c :: back) = false := by
    rw [allBlank_eq_blankLine, blankLine_solid hc]
  rw [spacedLines, hsolid, if_neg Bool.false_ne_true, spacedLines_of_blank hblanks,
    trimEnd_solid hc, trimEnd_of_blank hback]

/-- **Tidying keeps the contents of the lines and cuts runs of blank lines down to two.** -/
theorem spacedLines_keepLines (run : Nat) (lines : List (List Char)) {last last' : List (List Char)}
    (hlast : ∀ run, spacedLines (min run maxBlankLines) last' =
      (spacedLines run last).map (Prod.map (min · maxBlankLines) id)) :
    spacedLines (min run maxBlankLines) (keepLines run lines ++ last') =
      (spacedLines run (lines ++ last)).map (Prod.map (min · maxBlankLines) id) := by
  induction lines generalizing run with
  | nil => exact hlast run
  | cons line lines ih =>
    rw [keepLines_eq, List.append_assoc, List.cons_append, spacedLines, allBlank_eq_blankLine]
    by_cases hblank : blankLine line = true
    · rw [if_pos hblank, ← ih, nextRun, if_pos hblank, keptLine, if_pos hblank]
      split_ifs with hrun
      · have hkept : allBlank (splitReturn line).2 = true := by
          rw [allBlank_eq_blankLine, (blankLine_splitReturn line).1]
        rw [List.singleton_append, spacedLines, if_pos hkept]
        congr 1
        omega
      · rw [List.nil_append]
        congr 1
        omega
    · have hkept : ¬ allBlank (trimLine line) = true := by
        rw [allBlank_eq_blankLine, blankLine_trimLine (Bool.eq_false_iff.mpr hblank)]
        exact Bool.false_ne_true
      rw [if_neg hblank, List.map_cons, ← ih, nextRun, if_neg hblank, keptLine, if_neg hblank,
        List.singleton_append, spacedLines, if_neg hkept, trimEnd_trimLine]
      rfl

/-! ### The ends of lines -/

theorem isSpaceOrTab_last_trimEnd {cs : List Char} {c : Char}
    (h : (trimEnd isSpaceOrTab cs).getLast? = some c) : isSpaceOrTab c = false := by
  have hhead := List.head?_dropWhile_not isSpaceOrTab cs.reverse
  rw [trimEnd, List.getLast?_reverse] at h
  rwa [h] at hhead

theorem isSpaceOrTab_last_trimLine {line : List Char} {c : Char}
    (h : (trimLine line).getLast? = some c) : isSpaceOrTab c = false := by
  unfold trimLine at h
  rcases splitReturn_snd line with hending | hending
  · rw [hending, List.append_nil] at h
    exact isSpaceOrTab_last_trimEnd h
  · rw [hending, List.getLast?_concat, Option.some.injEq] at h
    subst h
    decide

theorem isSpaceOrTab_last_keepLines {run : Nat} {lines : List (List Char)} {kept : List Char}
    (h : kept ∈ keepLines run lines) {c : Char} (hc : kept.getLast? = some c) :
    isSpaceOrTab c = false := by
  obtain ⟨line, -, ⟨-, rfl⟩ | ⟨-, rfl⟩⟩ := mem_keepLines h
  · rcases splitReturn_snd line with hending | hending
    · simp [hending] at hc
    · rw [hending, List.getLast?_singleton, Option.some.injEq] at hc
      subst hc
      decide
  · exact isSpaceOrTab_last_trimLine hc

/-- Whether every carriage return of a text stands directly before a line feed. -/
def PairedReturns (cs : List Char) : Prop :=
  ∀ front back, cs = front ++ '\r' :: back → back.head? = some '\n'

theorem PairedReturns.line {line : List Char} (hmem : '\n' ∉ line) {cs : List Char}
    (h : PairedReturns (line ++ '\n' :: cs)) : '\r' ∉ (splitReturn line).1 := by
  rcases splitReturn_cases line with ⟨hlast, hsplit⟩ | ⟨body, rfl, hsplit⟩
  · rw [hsplit]
    intro hreturn
    obtain ⟨front, back, rfl⟩ := List.append_of_mem hreturn
    have hhead := h front (back ++ '\n' :: cs) (by simp)
    cases back with
    | nil => simp at hlast
    | cons d back => simp_all
  · rw [hsplit]
    intro hreturn
    obtain ⟨front, back, rfl⟩ := List.append_of_mem hreturn
    have hhead := h front (back ++ '\r' :: '\n' :: cs) (by simp)
    cases back with
    | nil => simp at hhead
    | cons d back => simp_all

theorem PairedReturns.lines {cs : List Char} (h : PairedReturns cs) :
    ∀ line ∈ (splitLines cs).dropLast, '\r' ∉ (splitReturn line).1 := by
  induction cs using line_induction with
  | hlast line hmem => simp [splitLines_of_notMem hmem]
  | hline first cs hmem ih =>
    have hrest : PairedReturns cs := fun front back hcs =>
      h (first ++ '\n' :: front) back (by rw [hcs, List.append_assoc, List.cons_append])
    rw [splitLines_line hmem, List.dropLast_cons_of_ne_nil (splitLines_ne_nil _)]
    intro line hline
    rcases List.mem_cons.mp hline with rfl | hline
    · exact h.line hmem
    · exact ih hrest line hline

/-- No space or tab stands before the carriage return that ends a line which is kept. -/
theorem isSpaceOrTab_before_return {run : Nat} {lines : List (List Char)}
    (hlines : ∀ line ∈ lines, '\r' ∉ (splitReturn line).1) {front : List Char} {c : Char}
    (h : front ++ [c, '\r'] ∈ keepLines run lines) : isSpaceOrTab c = false := by
  obtain ⟨line, hline, ⟨-, hkept⟩ | ⟨-, hkept⟩⟩ := mem_keepLines h
  · rcases splitReturn_snd line with hending | hending <;>
      simp [hending, List.append_eq_cons_iff] at hkept
  · unfold trimLine at hkept
    rcases splitReturn_snd line with hending | hending
    · rw [hending, List.append_nil] at hkept
      have hreturn : '\r' ∈ trimEnd isSpaceOrTab (splitReturn line).1 := by simp [← hkept]
      exact absurd ((List.rdropWhile_prefix isSpaceOrTab _).subset hreturn) (hlines line hline)
    · rw [hending, List.append_cons, List.append_left_inj] at hkept
      exact isSpaceOrTab_last_trimEnd (by rw [← hkept, List.getLast?_concat])

section LastLine

variable {c d : Char} (hc : Solid c) {front ending : List Char}
  (hending : ending = [] ∨ ending = ['\r'])
include hc hending

theorem isSpaceOrTab_last_solid (h : (front ++ c :: ending).getLast? = some d) :
    isSpaceOrTab d = false := by
  rcases hending with rfl | rfl
  · rw [List.getLast?_concat, Option.some.injEq] at h
    exact h ▸ hc.not_spaceOrTab
  · rw [List.append_cons, List.getLast?_concat, Option.some.injEq] at h
    subst h
    decide

theorem isSpaceOrTab_before_solid {before : List Char}
    (h : front ++ c :: ending = before ++ [d, '\r']) : isSpaceOrTab d = false := by
  rw [List.append_cons before] at h
  rcases hending with rfl | rfl
  · have hreturn : c = '\r' := List.singleton_inj.mp (List.append_inj' h rfl).2
    exact absurd hreturn (hc.ne (by decide))
  · rw [List.append_cons front, List.append_left_inj] at h
    obtain rfl : c = d := List.singleton_inj.mp (List.append_inj' h rfl).2
    exact hc.not_spaceOrTab

end LastLine

/-! ### Sizes -/

theorem row_sublist (run : Nat) (line : List Char) : (row run line).Sublist ('\n' :: line) := by
  unfold row
  split_ifs
  · refine List.Sublist.cons_cons _ ?_
    nth_rewrite 2 [← splitReturn_append line]
    exact List.sublist_append_right ..
  · exact List.nil_sublist _
  · obtain ⟨front, gap, ending, hline, htrim, -⟩ := trimLine_cases line
    rw [htrim, hline]
    exact ((List.sublist_append_left front gap).append_right ending).cons_cons _

theorem rows_sublist (run : Nat) (cs : List Char) : (rows run cs).Sublist ('\n' :: cs) := by
  induction cs using line_induction generalizing run with
  | hlast line hmem =>
    rw [rows_last run hmem]
    exact row_sublist run line
  | hline line cs hmem ih =>
    rw [rows_line run hmem, ← List.cons_append]
    exact (row_sublist run line).append (ih _)

theorem byteSize_tidyChars_le (cs : List Char) : byteSize (tidyChars cs) ≤ byteSize cs + 2 := by
  rcases blank_or_solid cs with hblank | ⟨front, c, tail, rfl, hc, htail⟩
  · simp [tidyChars_blank hblank]
  · have hrows := rows_sublist 0 (front ++ [c])
    rw [rows_zero, List.cons_sublist_cons] at hrows
    have hbody := byteSize_le_of_sublist hrows
    have hterm : byteSize (finalTerminator (front ++ c :: tail)) ≤ 2 := by
      unfold finalTerminator
      split_ifs <;> decide
    rw [tidyChars_solid hc front htail, byteSize_append]
    simp only [byteSize_append, byteSize_cons, byteSize_nil] at hbody ⊢
    omega

/-! ### The form of a tidied text -/

/-- What `tidied` keeps of the text `cs` and which form it has. -/
structure TidyForm (cs tidied : List Char) : Prop where
  /-- Nothing is left of a text if and only if it is blank. -/
  empty : tidied = [] ↔ ∀ c ∈ cs, isBlank c = true
  /-- Any other text ends with a character that is not blank and one terminator. -/
  ending : tidied ≠ [] → ∃ front c, isBlank c = false ∧
    (['\r', '\n'] <:+: cs → tidied = front ++ [c, '\r', '\n']) ∧
    (¬ ['\r', '\n'] <:+: cs → tidied = front ++ [c, '\n'])
  /-- The lines that are not blank stay, the blanks at their ends apart. -/
  contents : ((splitLines tidied).filter (!allBlank ·)).map (trimEnd isBlank) =
    ((splitLines cs).filter (!allBlank ·)).map (trimEnd isBlank)
  /-- Of the blank lines directly before each of them, two stay or all if there are fewer. -/
  spacing : spacedLines 0 (splitLines tidied) =
    (spacedLines 0 (splitLines cs)).map (Prod.map (min · 2) id)
  blankLines : ∀ line ∈ splitLines tidied, allBlank line = true → line = [] ∨ line = ['\r']
  lineEnds : ∀ line ∈ splitLines tidied, ∀ c, line.getLast? = some c → isSpaceOrTab c = false
  returns : PairedReturns cs → ∀ line ∈ splitLines tidied, ∀ front c, line = front ++ [c, '\r'] →
    isSpaceOrTab c = false
  size : byteSize tidied ≤ byteSize cs + 2

/-- The form of a text of which nothing is left. -/
theorem tidyForm_blank {cs : List Char} (h : ∀ c ∈ cs, isBlank c = true) : TidyForm cs [] := by
  have hnone : spacedLines 0 (splitLines cs) = [] :=
    spacedLines_of_blank (fun line hline c hc => h c (mem_of_mem_splitLines hline hc)) 0
  have hspacing : spacedLines 0 (splitLines []) = [] := rfl
  have hlines : ∀ line ∈ splitLines [], line = [] := fun line => List.mem_singleton.mp
  exact {
    empty := iff_of_true rfl h
    ending := absurd rfl
    contents := by rw [← map_snd_spacedLines 0, ← map_snd_spacedLines 0, hnone, hspacing]
    spacing := by rw [hnone, hspacing, List.map_nil]
    blankLines := fun line hline _ => .inl (hlines line hline)
    lineEnds := fun line hline c hc => by simp [hlines line hline] at hc
    returns := fun _ line hline front c hc => by simp [hlines line hline] at hc
    size := Nat.zero_le _ }

theorem tidyForm_solid {c : Char} (hc : Solid c) (text : List Char) {tail : List Char}
    (htail : ∀ d ∈ tail, isBlank d = true) :
    TidyForm (text ++ c :: tail) (tidyChars (text ++ c :: tail)) := by
  obtain ⟨lines, front, back, blanks, hlines, hshort, hback, hblanks⟩ :=
    splitLines_solid hc text htail
  obtain ⟨ending, hending, htidied⟩ := splitLines_tidyChars hc htail hshort
  have hspacing : spacedLines 0 (splitLines (tidyChars (text ++ c :: tail))) =
      (spacedLines 0 (splitLines (text ++ c :: tail))).map (Prod.map (min · 2) id) := by
    rw [htidied, hlines]
    refine spacedLines_keepLines 0 lines fun run => ?_
    rw [spacedLines_last hc _ _ (isBlank_of_mem_ending hending) (by simp),
      spacedLines_last hc _ _ hback hblanks]
    rfl
  have hcases : ∀ line ∈ splitLines (tidyChars (text ++ c :: tail)),
      line ∈ keepLines 0 lines ∨ line = front ++ c :: ending ∨ line = [] := fun line hline => by
    simpa [htidied] using hline
  have hnot : allBlank (front ++ c :: ending) = false := by
    rw [allBlank_eq_blankLine, blankLine_solid hc]
  obtain ⟨kept, hkept⟩ := tidyLines_end hc text
  have hsolid := tidyChars_solid hc text htail
  exact {
    empty := by
      refine iff_of_false (by simp [hsolid, hkept]) fun hall => ?_
      exact absurd (hall c (by simp)) (Bool.eq_false_iff.mp hc)
    ending := fun _ => by
      refine ⟨kept, c, hc, fun hcrlf => ?_, fun hcrlf => ?_⟩
      · rw [← hasCrlf_eq_true] at hcrlf
        rw [hsolid, hkept, finalTerminator, if_pos hcrlf, List.append_assoc, List.singleton_append]
      · rw [← hasCrlf_eq_true] at hcrlf
        rw [hsolid, hkept, finalTerminator, if_neg hcrlf, List.append_assoc, List.singleton_append]
    contents := by
      rw [← map_snd_spacedLines 0, ← map_snd_spacedLines 0, hspacing, List.map_map]
      rfl
    spacing := hspacing
    blankLines := fun line hline hall => by
      rcases hcases line hline with hline | rfl | rfl
      · exact eq_of_mem_keepLines_of_blank hline hall
      · rw [hnot] at hall
        cases hall
      · exact .inl rfl
    lineEnds := fun line hline d hd => by
      rcases hcases line hline with hline | rfl | rfl
      · exact isSpaceOrTab_last_keepLines hline hd
      · exact isSpaceOrTab_last_solid hc hending hd
      · cases hd
    returns := fun hpaired line hline before d hd => by
      have hreturns : ∀ line ∈ lines, '\r' ∉ (splitReturn line).1 := fun line hline =>
        hpaired.lines line (by rw [hlines]; simp [List.dropLast_append_of_ne_nil, hline])
      rcases hcases line hline with hline | rfl | rfl
      · exact isSpaceOrTab_before_return hreturns (hd ▸ hline)
      · exact isSpaceOrTab_before_solid hc hending hd
      · simp at hd
    size := byteSize_tidyChars_le _ }

/-- **Tidying keeps the contents of a text and fixes its form.** -/
theorem tidy_form (text : String) :
    TidyForm text.toList (tidy text).toList ∧
      (tidy text).utf8ByteSize ≤ text.utf8ByteSize + 2 := by
  have hform : TidyForm text.toList (tidy text).toList := by
    rw [tidy, String.toList_ofList]
    rcases blank_or_solid text.toList with hblank | ⟨front, c, tail, hcs, hc, htail⟩
    · rw [tidyChars_blank hblank]
      exact tidyForm_blank hblank
    · rw [hcs]
      exact tidyForm_solid hc front htail
  refine ⟨hform, ?_⟩
  rw [← byteSize_toList, ← byteSize_toList]
  exact hform.size

end Uncomment
