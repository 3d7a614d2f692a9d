/-
# Tidying line by line

A text is a last line without a line feed, or a line, its line feed and a text; facts about all
texts follow from these two cases (`line_induction`). Each line that stays after another one is a
row: a line feed and the line without its trailing spaces and tabs. What the rows of a text are
depends on what comes before by the number of blank lines only, and after a line that is not blank
by nothing. So a text can be tidied in parts, if it is cut after a character that is not blank:
the first part on its own, and the second one as the rest of a line (`rows_cut`, `resume_cut`). Of
what follows the last character that is not blank, only a terminator is left (`tidyChars_solid`).

Key definitions: `trimLine`, `rows`, `resume`, `tidyLines`.
Key theorems: `line_induction`, `rows_cut`, `resume_cut`, `tidyChars_solid`.
-/
import Mathlib.Data.List.DropRight
import Uncomment.Proofs.Lines
import Uncomment.Tidy

namespace Uncomment

open Text

/-! ### Lines -/

theorem splitLines_of_notMem {line : List Char} (h : '\n' ∉ line) : splitLines line = [line] :=
  splitOn_of_notMem h

theorem splitLines_line {line : List Char} (h : '\n' ∉ line) (cs : List Char) :
    splitLines (line ++ '\n' :: cs) = line :: splitLines cs := by
  rw [splitLines, splitOn_append_cons, splitOn_of_notMem h]
  rfl

theorem feed_notMem_of_mem_splitLines {cs line : List Char} (h : line ∈ splitLines cs) :
    '\n' ∉ line := sep_notMem_of_mem_splitOn h

/-- A fact about texts holds of all of them if it holds of a line without a line feed, and of a
line with its line feed before a text of which it holds. -/
theorem line_induction {P : List Char → Prop} (hlast : ∀ line, '\n' ∉ line → P line)
    (hline : ∀ line cs, '\n' ∉ line → P cs → P (line ++ '\n' :: cs)) (cs : List Char) : P cs := by
  by_cases hfeed : '\n' ∈ cs
  · obtain ⟨line, rest, rfl, hnot⟩ := List.eq_append_cons_of_mem hfeed
    exact hline line rest hnot (line_induction hlast hline rest)
  · exact hlast cs hfeed
termination_by cs.length

/-! ### The end of a line -/

/-- A line without its trailing spaces and tabs, a carriage return at its end kept. -/
def trimLine (line : List Char) : List Char :=
  trimEnd isSpaceOrTab (splitReturn line).1 ++ (splitReturn line).2

/-- Whether a line is blank. -/
def blankLine (line : List Char) : Bool := allBlank (splitReturn line).1

/-- A character that is not blank, so neither is a line that holds it. -/
def Solid (c : Char) : Prop := isBlank c = false

theorem Solid.ne {c d : Char} (h : Solid c) (hd : isBlank d = true) : c ≠ d := by
  rintro rfl
  simp [Solid, hd] at h

theorem Solid.not_spaceOrTab {c : Char} (h : Solid c) : isSpaceOrTab c = false := by
  have hspace := h.ne (d := ' ') (by decide)
  have htab := h.ne (d := '\t') (by decide)
  simp [isSpaceOrTab, hspace, htab]

theorem isBlank_of_isSpaceOrTab {c : Char} (h : isSpaceOrTab c = true) : isBlank c = true := by
  rcases (by simpa [isSpaceOrTab] using h : c = ' ' ∨ c = '\t') with rfl | rfl <;> decide

theorem trimEnd_solid {p : Char → Bool} {c : Char} (h : p c = false) (front back : List Char) :
    trimEnd p (front ++ c :: back) = front ++ c :: trimEnd p back := by
  unfold trimEnd
  rw [List.reverse_append, List.reverse_cons, List.append_assoc, List.dropWhile_append]
  split
  · next hempty =>
    rw [List.isEmpty_iff.mp hempty]
    simp [h]
  · simp

theorem splitReturn_return (line : List Char) : splitReturn (line ++ ['\r']) = (line, ['\r']) := by
  simp [splitReturn]

theorem splitReturn_of_ne {line : List Char} (h : line.getLast? ≠ some '\r') :
    splitReturn line = (line, []) := if_neg h

theorem splitReturn_cases (line : List Char) :
    line.getLast? ≠ some '\r' ∧ splitReturn line = (line, []) ∨
      ∃ body, line = body ++ ['\r'] ∧ splitReturn line = (body, ['\r']) := by
  by_cases h : line.getLast? = some '\r'
  · obtain ⟨body, rfl⟩ := List.getLast?_eq_some_iff.mp h
    exact .inr ⟨body, rfl, splitReturn_return body⟩
  · exact .inl ⟨h, splitReturn_of_ne h⟩

theorem splitReturn_snd (line : List Char) :
    (splitReturn line).2 = [] ∨ (splitReturn line).2 = ['\r'] := by
  rcases splitReturn_cases line with ⟨-, hline⟩ | ⟨body, -, hline⟩ <;> simp [hline]

theorem splitReturn_solid {c : Char} (h : Solid c) (front back : List Char) :
    splitReturn (front ++ c :: back) =
      (front ++ c :: (splitReturn back).1, (splitReturn back).2) := by
  rcases List.eq_nil_or_concat' back with rfl | ⟨back, d, rfl⟩
  · exact splitReturn_of_ne (by simpa using h.ne (by decide))
  · rw [← List.cons_append, ← List.append_assoc]
    by_cases hd : d = '\r'
    · subst hd
      rw [splitReturn_return, splitReturn_return]
    · have hlast : ∀ xs : List Char, splitReturn (xs ++ [d]) = (xs ++ [d], []) := fun xs =>
        splitReturn_of_ne (by simpa using hd)
      rw [hlast, hlast]
      simp

/-- What is taken off a line: spaces and tabs, with nothing or a carriage return behind. -/
theorem trimLine_cases (line : List Char) :
    ∃ front gap ending, line = front ++ gap ++ ending ∧ trimLine line = front ++ ending ∧
      (∀ c ∈ gap, isSpaceOrTab c = true) ∧ (ending = [] ∨ ending = ['\r']) := by
  have hsplit : ∀ body : List Char, ∃ gap, body = trimEnd isSpaceOrTab body ++ gap ∧
      ∀ c ∈ gap, isSpaceOrTab c = true := fun body =>
    ⟨body.rtakeWhile isSpaceOrTab, List.rdropWhile_append_rtakeWhile.symm,
      fun _ => List.mem_rtakeWhile_imp⟩
  rcases splitReturn_cases line with ⟨-, hline⟩ | ⟨body, rfl, hline⟩
  · obtain ⟨gap, hgap, hblank⟩ := hsplit line
    rw [trimLine, hline]
    exact ⟨_, gap, [], by rw [List.append_nil, ← hgap], rfl, hblank, .inl rfl⟩
  · obtain ⟨gap, hgap, hblank⟩ := hsplit body
    rw [trimLine, hline]
    exact ⟨_, gap, ['\r'], by rw [← hgap], rfl, hblank, .inr rfl⟩

theorem mem_of_mem_trimLine {line : List Char} {c : Char} (h : c ∈ trimLine line) : c ∈ line := by
  obtain ⟨front, gap, ending, hline, htrim, -⟩ := trimLine_cases line
  rw [htrim, List.mem_append] at h
  rw [hline, List.append_assoc, List.mem_append, List.mem_append]
  exact h.imp id .inr

theorem splitReturn_append (line : List Char) :
    (splitReturn line).1 ++ (splitReturn line).2 = line := by
  rcases splitReturn_cases line with ⟨-, hline⟩ | ⟨body, rfl, hline⟩
  · rw [hline, List.append_nil]
  · rw [hline]

theorem mem_of_mem_splitReturn {line : List Char} {c : Char} (h : c ∈ (splitReturn line).2) :
    c ∈ line := by
  rw [← splitReturn_append line]
  exact List.mem_append_right _ h

/-- A blank line holds blanks only. -/
theorem isBlank_of_blankLine {line : List Char} (h : blankLine line = true) :
    ∀ c ∈ line, isBlank c = true := by
  intro c hc
  rw [← splitReturn_append line, List.mem_append] at hc
  rcases hc with hc | hc
  · exact List.all_eq_true.mp h c hc
  · rcases splitReturn_cases line with ⟨-, hline⟩ | ⟨body, -, hline⟩
    · simp [hline] at hc
    · rw [hline] at hc
      cases List.mem_singleton.mp hc
      decide

/-- What stands before a character that is not blank is kept. -/
theorem trimLine_solid {c : Char} (h : Solid c) (front back : List Char) :
    trimLine (front ++ c :: back) = front ++ c :: trimLine back := by
  rw [trimLine, splitReturn_solid h, trimEnd_solid h.not_spaceOrTab]
  simp [trimLine]

theorem blankLine_solid {c : Char} (h : Solid c) (front back : List Char) :
    blankLine (front ++ c :: back) = false := by
  rw [blankLine, splitReturn_solid h]
  simp [allBlank, show isBlank c = false from h]

/-! ### Rows -/

/-- What is left of a line after `run` blank lines: one line or none. -/
def keptLine (run : Nat) (line : List Char) : List (List Char) :=
  if blankLine line then if run < maxBlankLines then [(splitReturn line).2] else []
  else [trimLine line]

/-- What is left of a line after `run` blank lines, with a line feed before it. -/
def row (run : Nat) (line : List Char) : List Char :=
  if blankLine line then
    if run < maxBlankLines then '\n' :: (splitReturn line).2 else []
  else '\n' :: trimLine line

/-- The number of blank lines in a row after one more line. -/
def nextRun (run : Nat) (line : List Char) : Nat := if blankLine line then run + 1 else 0

/-- What is left of the lines of a text after `run` blank lines, with a line feed before each. -/
def rows (run : Nat) (cs : List Char) : List Char :=
  (keepLines run (splitLines cs)).flatMap ('\n' :: ·)

/-- What is left of a text that goes on with a line which is not blank. -/
def resume (cs : List Char) : List Char :=
  match splitLines cs with
  | [] => []
  | line :: lines => trimLine line ++ (keepLines 0 lines).flatMap ('\n' :: ·)

/-- A text with its lines tidied, its end apart. -/
def tidyLines (cs : List Char) : List Char := joinLines (keepLines 0 (splitLines cs))

theorem keepLines_eq (run : Nat) (line : List Char) (lines : List (List Char)) :
    keepLines run (line :: lines) = keptLine run line ++ keepLines (nextRun run line) lines := by
  by_cases hblank : allBlank (splitReturn line).1 = true
  · by_cases hrun : run < maxBlankLines
    · simp [keepLines, keptLine, nextRun, blankLine, hblank, hrun]
    · simp [keepLines, keptLine, nextRun, blankLine, hblank, hrun]
  · simp [keepLines, keptLine, nextRun, blankLine, trimLine, hblank]

theorem row_eq (run : Nat) (line : List Char) :
    row run line = (keptLine run line).flatMap ('\n' :: ·) := by
  unfold row keptLine
  split_ifs <;> simp

theorem keepLines_cons (run : Nat) (line : List Char) (lines : List (List Char)) :
    (keepLines run (line :: lines)).flatMap ('\n' :: ·) =
      row run line ++ (keepLines (nextRun run line) lines).flatMap ('\n' :: ·) := by
  rw [keepLines_eq, List.flatMap_append, row_eq]

theorem rows_last (run : Nat) {line : List Char} (h : '\n' ∉ line) :
    rows run line = row run line := by
  rw [rows, splitLines_of_notMem h, keepLines_cons]
  simp [keepLines]

theorem rows_line (run : Nat) {line : List Char} (h : '\n' ∉ line) (cs : List Char) :
    rows run (line ++ '\n' :: cs) = row run line ++ rows (nextRun run line) cs := by
  rw [rows, splitLines_line h, keepLines_cons, rows]

theorem resume_last {line : List Char} (h : '\n' ∉ line) : resume line = trimLine line := by
  simp [resume, splitLines_of_notMem h, keepLines]

@[simp] theorem resume_nil : resume [] = [] := rfl

theorem resume_line {line : List Char} (h : '\n' ∉ line) (cs : List Char) :
    resume (line ++ '\n' :: cs) = trimLine line ++ rows 0 cs := by
  simp [resume, splitLines_line h, rows]

theorem joinLines_cons (line : List Char) (lines : List (List Char)) :
    joinLines (line :: lines) = line ++ lines.flatMap ('\n' :: ·) := by
  induction lines generalizing line with
  | nil => simp [joinLines, joinWith, List.intercalate]
  | cons next lines ih =>
    have hjoin : joinLines (line :: next :: lines) = line ++ '\n' :: joinLines (next :: lines) := by
      simp [joinLines, joinWith, List.intercalate]
    rw [hjoin, ih]
    simp

/-- The first line stays, so the rows of a text are a line feed and the tidied lines. -/
theorem rows_zero (cs : List Char) : rows 0 cs = '\n' :: tidyLines cs := by
  obtain ⟨line, lines, hlines⟩ := List.exists_cons_of_ne_nil (splitLines_ne_nil cs)
  rw [rows, tidyLines, hlines, keepLines]
  dsimp only
  split_ifs with hblank hrun
  · rw [joinLines_cons]
    rfl
  · exact absurd (by decide : 0 < maxBlankLines) hrun
  · rw [joinLines_cons]
    rfl

/-! ### Cutting a text -/

section Cutting

variable {c : Char}

/-- A character that is not blank ends no line, and nor does what stands before it in its line. -/
theorem splitLines_solid_cons (h : Solid c) {front : List Char} (hfront : '\n' ∉ front)
    {cs line : List Char} {lines : List (List Char)} (hlines : splitLines cs = line :: lines) :
    splitLines (front ++ c :: cs) = (front ++ c :: line) :: lines := by
  induction front with
  | nil =>
    rw [List.nil_append, splitLines_cons, if_neg (h.ne (by decide)), hlines]
    rfl
  | cons d front ih =>
    rw [List.mem_cons, not_or] at hfront
    rw [List.cons_append, splitLines_cons, if_neg (Ne.symm hfront.1), ih hfront.2]
    rfl

/-- Nothing is taken from a line before a character that is not blank. -/
theorem resume_solid (h : Solid c) {front : List Char} (hfront : '\n' ∉ front) (cs : List Char) :
    resume (front ++ c :: cs) = front ++ c :: resume cs := by
  obtain ⟨line, lines, hlines⟩ := List.exists_cons_of_ne_nil (splitLines_ne_nil cs)
  rw [resume, resume, splitLines_solid_cons h hfront hlines, hlines]
  dsimp only
  rw [trimLine_solid h, List.append_assoc, List.cons_append]

/-- A line that holds a character which is not blank is a row, whatever comes before it. -/
theorem rows_solid (h : Solid c) (run : Nat) {front : List Char} (hfront : '\n' ∉ front)
    (cs : List Char) : rows run (front ++ c :: cs) = '\n' :: front ++ c :: resume cs := by
  obtain ⟨line, lines, hlines⟩ := List.exists_cons_of_ne_nil (splitLines_ne_nil cs)
  have hsplit := splitLines_solid_cons h hfront hlines
  calc rows run (front ++ c :: cs)
      = '\n' :: resume (front ++ c :: cs) := by
        rw [rows, resume, hsplit, keepLines_cons, row, nextRun, blankLine_solid h]
        rfl
    _ = '\n' :: front ++ c :: resume cs := by rw [resume_solid h hfront, List.cons_append]

/-- **A text can be tidied in parts**, if it is cut after a character that is not blank. -/
theorem rows_cut (h : Solid c) (run : Nat) (front cs : List Char) :
    rows run (front ++ c :: cs) = rows run (front ++ [c]) ++ resume cs := by
  induction front using line_induction generalizing run with
  | hlast line hmem =>
    rw [rows_solid h run hmem, rows_solid h run hmem]
    simp
  | hline line front hmem ih =>
    rw [List.append_assoc, List.append_assoc, List.cons_append, List.cons_append,
      rows_line run hmem, rows_line run hmem, ih, List.append_assoc]

theorem resume_cut (h : Solid c) (front cs : List Char) :
    resume (front ++ c :: cs) = resume (front ++ [c]) ++ resume cs := by
  induction front using line_induction with
  | hlast line hmem =>
    rw [resume_solid h hmem, resume_solid h hmem]
    simp
  | hline line front hmem _ =>
    rw [List.append_assoc, List.append_assoc, List.cons_append, List.cons_append,
      resume_line hmem, resume_line hmem, rows_cut h, List.append_assoc]

/-- A character that is not blank stays where a text is cut after it. -/
theorem rows_end (h : Solid c) (run : Nat) (front : List Char) :
    ∃ kept, rows run (front ++ [c]) = kept ++ [c] := by
  induction front using line_induction generalizing run with
  | hlast line hmem =>
    refine ⟨'\n' :: line, ?_⟩
    rw [rows_solid h run hmem]
    simp
  | hline line front hmem ih =>
    obtain ⟨kept, hkept⟩ := ih (nextRun run line)
    refine ⟨row run line ++ kept, ?_⟩
    rw [List.append_assoc, List.cons_append, rows_line run hmem, hkept, List.append_assoc]

theorem resume_end (h : Solid c) (front : List Char) :
    ∃ kept, resume (front ++ [c]) = kept ++ [c] := by
  induction front using line_induction with
  | hlast line hmem =>
    refine ⟨line, ?_⟩
    rw [resume_solid h hmem]
    simp
  | hline line front hmem _ =>
    obtain ⟨kept, hkept⟩ := rows_end h 0 front
    refine ⟨trimLine line ++ kept, ?_⟩
    rw [List.append_assoc, List.cons_append, resume_line hmem, hkept, List.append_assoc]

/-- A text that starts with a character that is not blank is tidied as the rest of a line. -/
theorem tidyLines_solid (h : Solid c) (cs : List Char) :
    tidyLines (c :: cs) = c :: resume cs := by
  have hrows := rows_zero (c :: cs)
  rw [← List.nil_append (c :: cs), rows_solid h 0 List.not_mem_nil] at hrows
  exact (List.cons.inj hrows).2.symm

theorem tidyLines_end (h : Solid c) (front : List Char) :
    ∃ kept, tidyLines (front ++ [c]) = kept ++ [c] := by
  obtain ⟨kept, hkept⟩ := rows_end h 0 front
  rw [rows_zero] at hkept
  cases kept with
  | nil => exact absurd (List.cons.inj hkept).1.symm (h.ne (by decide))
  | cons d kept => exact ⟨kept, (List.cons.inj hkept).2⟩

end Cutting

/-! ### The end of a text -/

/-- A text is blank, or it has a last character that is not. -/
theorem blank_or_solid (cs : List Char) :
    (∀ c ∈ cs, isBlank c = true) ∨
      ∃ front c tail, cs = front ++ c :: tail ∧ Solid c ∧ ∀ d ∈ tail, isBlank d = true := by
  have hsplit : cs.rdropWhile isBlank ++ cs.rtakeWhile isBlank = cs :=
    List.rdropWhile_append_rtakeWhile
  have htail : ∀ d ∈ cs.rtakeWhile isBlank, isBlank d = true := fun _ => List.mem_rtakeWhile_imp
  by_cases hnil : cs.rdropWhile isBlank = []
  · exact .inl (List.rdropWhile_eq_nil_iff.mp hnil)
  · refine .inr ⟨(cs.rdropWhile isBlank).dropLast, (cs.rdropWhile isBlank).getLast hnil, _, ?_, ?_,
      htail⟩
    · rw [List.append_cons, List.dropLast_append_getLast, hsplit]
    · exact Bool.eq_false_iff.mpr (List.rdropWhile_last_not isBlank cs hnil)

theorem blank_row {run : Nat} {line : List Char} (h : ∀ c ∈ line, isBlank c = true) :
    ∀ d ∈ row run line, isBlank d = true := by
  have hfeed : isBlank '\n' = true := by decide
  unfold row
  split_ifs with hblank
  · simpa [hfeed] using fun d hd => h d (mem_of_mem_splitReturn hd)
  · simp
  · simpa [hfeed] using fun d hd => h d (mem_of_mem_trimLine hd)

theorem blank_rows {cs : List Char} (h : ∀ c ∈ cs, isBlank c = true) (run : Nat) :
    ∀ d ∈ rows run cs, isBlank d = true := by
  induction cs using line_induction generalizing run with
  | hlast line hmem =>
    rw [rows_last run hmem]
    exact blank_row h
  | hline line cs hmem ih =>
    simp only [List.mem_append, List.mem_cons] at h
    rw [rows_line run hmem]
    intro d hd
    rcases List.mem_append.mp hd with hd | hd
    · exact blank_row (fun c hc => h c (.inl hc)) d hd
    · exact ih (fun c hc => h c (.inr (.inr hc))) _ d hd

theorem blank_resume {cs : List Char} (h : ∀ c ∈ cs, isBlank c = true) :
    ∀ d ∈ resume cs, isBlank d = true := by
  induction cs using line_induction with
  | hlast line hmem =>
    rw [resume_last hmem]
    exact fun d hd => h d (mem_of_mem_trimLine hd)
  | hline line cs hmem _ =>
    simp only [List.mem_append, List.mem_cons] at h
    rw [resume_line hmem]
    intro d hd
    rcases List.mem_append.mp hd with hd | hd
    · exact h d (.inl (mem_of_mem_trimLine hd))
    · exact blank_rows (fun c hc => h c (.inr (.inr hc))) 0 d hd

theorem trimEnd_of_blank {cs : List Char} (h : ∀ c ∈ cs, isBlank c = true) :
    trimEnd isBlank cs = [] := List.rdropWhile_eq_nil_iff.mpr h

/-- Nothing is left of a blank text. -/
theorem tidyChars_blank {cs : List Char} (h : ∀ c ∈ cs, isBlank c = true) : tidyChars cs = [] := by
  have hrows := blank_rows h 0
  rw [rows_zero] at hrows
  have hbody : trimEnd isBlank (tidyLines cs) = [] :=
    trimEnd_of_blank fun d hd => hrows d (List.mem_cons_of_mem _ hd)
  unfold tidyChars
  rw [← tidyLines, hbody]
  rfl

/-- A text is tidied up to its last character that is not blank, and gets a terminator there. -/
theorem tidyChars_solid {c : Char} (h : Solid c) (front : List Char) {tail : List Char}
    (htail : ∀ d ∈ tail, isBlank d = true) :
    tidyChars (front ++ c :: tail) =
      tidyLines (front ++ [c]) ++ finalTerminator (front ++ c :: tail) := by
  have hcut : tidyLines (front ++ c :: tail) = tidyLines (front ++ [c]) ++ resume tail := by
    have hrows := rows_cut h 0 front tail
    rw [rows_zero, rows_zero, List.cons_append] at hrows
    exact (List.cons.inj hrows).2
  obtain ⟨kept, hkept⟩ := tidyLines_end h front
  have hbody : trimEnd isBlank (tidyLines (front ++ c :: tail)) = tidyLines (front ++ [c]) := by
    rw [hcut, hkept, List.append_assoc, List.singleton_append, trimEnd_solid h,
      trimEnd_of_blank (blank_resume htail)]
  unfold tidyChars
  rw [← tidyLines, hbody, hkept]
  simp

end Uncomment
