/-
# Tidying adds no comments

Tidying takes spaces and tabs off the ends of lines, and blank lines out of the text. A reader
between lexemes does not notice blanks. In a line that starts with two slashes they do not make or
break a directive, and in a string or regular expression they matter after a backslash only, where
a reader refuses them at the end of a line. So a reader of a line and its line feed comes to the
same place if the end of the line is trimmed (`readAll_trimLine`).

A blank line is read by a reader that has just read a line feed. It is between lexemes, or in a
string or regular expression in which a backslash took the line feed along; there the next line
feed ends the literal. After two blank lines a reader is between lexemes, so further ones can go
(`After.row`).

Key definitions: `Scan.Reader.Settled`.
Key theorems: `Scan.Reader.readAll_rows`, `Clear.tidyChars`.
-/
import Uncomment.Proofs.Steady
import Uncomment.Proofs.TidyLines

namespace Uncomment

open Text

namespace Scan

/-- A space or tab is no news in a literal, unless it is taken along. -/
theorem Pending.step_gap {p : Pending} {c : Char} (hc : isSpaceOrTab c = true)
    (hp : p ≠ .escape) : p.step c = p := by
  have hesc : c ≠ '\\' := ne_of_isBlank (isBlank_of_isSpaceOrTab hc) (by decide)
  cases p with
  | none => simp [step, hesc]
  | escape => exact absurd rfl hp
  | hanging => simp [step, hc]

theorem Pending.step_escape_gap {c : Char} (hc : isSpaceOrTab c = true) :
    Pending.escape.step c = .hanging := by
  simp [step, hc]

theorem Pending.step_ne_hanging {p : Pending} {c : Char} (hc : isSpaceOrTab c = false) :
    p.step c ≠ .hanging := by
  unfold step
  rw [hc]
  cases p <;> simp <;> split_ifs <;> simp

namespace Reader

variable {a b : Reader} {r : Reading} {c : Char}

/-! ### Blanks -/

theorem ofTemplate_blank (h : isBlank c = true) : ofTemplate r c = ⟨r, .plain⟩ := by
  have hesc : c ≠ '\\' := ne_of_isBlank h (by decide)
  have htick : c ≠ backtick := ne_of_isBlank h (by decide)
  have hdollar : c ≠ '$' := ne_of_isBlank h (by decide)
  simp [ofTemplate, hesc, htick, hdollar]

theorem next_plain_blank (h : isBlank c = true) : next ⟨r, .plain⟩ c = some ⟨r, .plain⟩ := by
  by_cases hplace : r.place = .template
  · rw [next_plain_template hplace, ofTemplate_blank h]
  · rw [next_plain hplace, ofCode_blank r h]

theorem inClassAfter_blank (inClass : Bool) (h : isBlank c = true) :
    inClassAfter inClass c = inClass := by
  have hopen : c ≠ '[' := ne_of_isBlank h (by decide)
  have hclose : c ≠ ']' := ne_of_isBlank h (by decide)
  simp [inClassAfter, hopen, hclose]

/-- A reader that has just read a line feed: between lexemes, or in a string or regular expression
with nothing pending. -/
inductive Settled : Reader → Prop where
  | plain (r : Reading) : Settled ⟨r, .plain⟩
  | quoted (r : Reading) {quote : Char} : isQuote quote = true → Settled ⟨r, .quoted quote .none⟩
  | regex (r : Reading) (inClass : Bool) : Settled ⟨r, .regex inClass .none⟩

theorem Settled.proper (h : a.Settled) : a.Proper := by
  cases h with
  | plain => trivial
  | quoted _ hquote => exact hquote
  | regex => trivial

theorem Settled.ends (h : a.Settled) : a.ends = true := by
  cases h <;> rfl

/-- A settled reader does not notice blanks in a line. -/
theorem Settled.next_blank (h : a.Settled) (hblank : isBlank c = true) (hfeed : c ≠ '\n') :
    a.next c = some a := by
  have hesc : c ≠ '\\' := ne_of_isBlank hblank (by decide)
  have hstep : Pending.none.step c = .none := by simp [Pending.step, hesc]
  cases h with
  | plain r => exact next_plain_blank hblank
  | quoted r hquote =>
    have hread := ofQuoted_plain (r := r) .none
      (ne_of_isQuote hquote (isQuote_of_isBlank hblank)) hfeed
    rwa [hstep] at hread
  | regex r inClass =>
    have hslash : c ≠ '/' := ne_of_isBlank hblank (by decide)
    have hread := ofRegex_plain (r := r) (p := .none) (by decide) hfeed (by simp [hslash])
      (inClassAfter_blank inClass hblank)
    rwa [hstep] at hread

theorem Settled.readAll_blanks (h : a.Settled) {cs : List Char}
    (hblank : ∀ c ∈ cs, isBlank c = true) (hfeed : '\n' ∉ cs) : a.readAll cs = some a := by
  induction cs with
  | nil => rfl
  | cons c cs ih =>
    simp only [List.mem_cons, forall_eq_or_imp, not_or] at hblank hfeed
    rw [readAll_cons, h.next_blank hblank.1 (Ne.symm hfeed.1), Option.bind_some,
      ih hblank.2 hfeed.2]

/-- A line feed ends the literal that a settled reader is in. -/
theorem Settled.next_feed (h : a.Settled) (hnext : a.next '\n' = some b) : b.mode = .plain := by
  cases h with
  | plain r =>
    rw [next_plain_blank (by decide)] at hnext
    cases hnext
    rfl
  | quoted r _ =>
    obtain rfl : _ = b := by simpa [next, ofQuoted] using hnext
    rfl
  | regex r inClass =>
    obtain rfl : _ = b := by simpa [next, ofRegex] using hnext
    rfl

/-- After a line feed a reader is settled. -/
theorem settled_of_next_feed (h : a.Proper) (hnext : a.next '\n' = some b) : b.Settled := by
  have hblank : isBlank '\n' = true := by decide
  obtain ⟨r, mode⟩ := a
  cases mode with
  | plain =>
    rw [next_plain_blank hblank] at hnext
    cases hnext
    exact .plain r
  | slash =>
    have hdivides : ofSlash r '\n' = some (ofCode (r.after (.code '/')) '\n') := by
      simp [ofSlash, opensRegex]
    rw [next, hdivides, ofCode_blank _ hblank] at hnext
    cases hnext
    exact .plain _
  | line text =>
    simp only [next, if_true] at hnext
    split_ifs at hnext
    cases hnext
    exact .plain _
  | quoted quote p =>
    simp only [next, ofQuoted] at hnext
    split_ifs at hnext with _ hclose
    · cases hnext
      exact .plain _
    · obtain rfl : p = .escape := by simpa using hclose
      cases hnext
      exact .quoted r h
  | regex inClass p =>
    simp only [next, ofRegex] at hnext
    split_ifs at hnext with _ hescape
    · cases hnext
      rw [hescape]
      exact .regex r inClass
    · cases hnext
      exact .plain _
  | flags =>
    rw [next_flags (by decide), ofCode_blank r hblank] at hnext
    cases hnext
    exact .plain r
  | escape =>
    cases hnext
    exact .plain r
  | dollar =>
    simp only [next] at hnext
    rw [if_neg (by decide), ofTemplate_blank hblank] at hnext
    cases hnext
    exact .plain r

/-! ### The end of a line -/

/-- What ends a line. -/
def Ending (cs : List Char) : Prop := cs = ['\n'] ∨ cs = ['\r', '\n']

theorem readAll_plain_ending {ending : List Char} (h : Ending ending) :
    readAll ⟨r, .plain⟩ ending = some ⟨r, .plain⟩ := by
  have hfeed := next_plain_blank (r := r) (by decide : isBlank '\n' = true)
  have hreturn := next_plain_blank (r := r) (by decide : isBlank '\r' = true)
  rcases h with rfl | rfl
  · simp [hfeed]
  · simp [hfeed, hreturn]

/-- A reader that any blank brings between lexemes is brought there by the end of the line. -/
theorem readAll_ending_of_blank (h : ∀ d, isBlank d = true → a.next d = some ⟨r, .plain⟩)
    {ending : List Char} (hending : Ending ending) : a.readAll ending = some ⟨r, .plain⟩ := by
  have hfeed := next_plain_blank (r := r) (by decide : isBlank '\n' = true)
  rcases hending with rfl | rfl
  · simp [h '\n' (by decide)]
  · simp [h '\r' (by decide), hfeed]

/-- A slash at the end of a line divides: a regular expression is given up at the line feed. -/
theorem readAll_slash_ending {ending : List Char} (hending : Ending ending) :
    readAll ⟨r, .slash⟩ ending = some ⟨r.after (.code '/'), .plain⟩ := by
  have hafter : r.after (.code '/') = ⟨r.layers, .resetTo '/'⟩ := by
    rw [Reading.after, Reading.countBrace_of_ne (by decide) (by decide)]
    rfl
  have hblank : ∀ d, isBlank d = true →
      ofCode (r.after (.code '/')) d = ⟨r.after (.code '/'), .plain⟩ :=
    fun d hd => ofCode_blank _ hd
  rcases hending with rfl | rfl
  · simp [next, ofSlash, opensRegex, hblank '\n' (by decide)]
  · by_cases hstart : r.tracker.canStartRegex = true
    · simp [next, ofSlash, opensRegex, hstart, ofRegex, Pending.step, hafter]
    · have hplain := next_plain_blank (r := r.after (.code '/')) (by decide : isBlank '\n' = true)
      simp [next, ofSlash, hstart, hblank '\r' (by decide)] at hplain ⊢
      exact hplain

/-- A line that starts with two slashes is a directive or refused, with a carriage return at its
end or not. -/
theorem readAll_line_ending (text : List Char) {ending : List Char} (hending : Ending ending) :
    readAll ⟨r, .line text⟩ ending =
      if isDirective text then some ⟨⟨r.layers, .resetTo '\n'⟩, .plain⟩ else none := by
  have hreturn := isDirective_blank (by decide : isBlank '\r' = true) text
  rcases hending with rfl | rfl
  · by_cases hdir : isDirective text = true <;> simp [next, hdir]
  · by_cases hdir : isDirective text = true <;> simp [next, hreturn, hdir]

/-- **A space or tab at the end of a line can go.** -/
theorem readAll_gap (h : a.Proper) (hc : isSpaceOrTab c = true) {ending : List Char}
    (hending : Ending ending) (hread : a.readAll (c :: ending) = some b) :
    a.readAll ending = some b := by
  have hblank := isBlank_of_isSpaceOrTab hc
  have hfeed : c ≠ '\n' := by
    rintro rfl
    cases hc
  obtain ⟨r, mode⟩ := a
  -- a reader that any blank brings between lexemes stays there
  have hloose : (∀ d, isBlank d = true → next ⟨r, mode⟩ d = some ⟨r, .plain⟩) →
      readAll ⟨r, mode⟩ ending = some b := by
    intro hnext
    rw [readAll_cons, hnext c hblank, Option.bind_some, readAll_plain_ending hending] at hread
    rw [readAll_ending_of_blank hnext hending, hread]
  cases mode with
  | plain => exact hloose fun d hd => next_plain_blank hd
  | flags =>
    exact hloose fun d hd => by rw [next_flags (isAlphabetic_of_isBlank hd), ofCode_blank r hd]
  | escape => exact hloose fun d _ => rfl
  | dollar =>
    refine hloose fun d hd => ?_
    rw [next, if_neg (ne_of_isBlank hd (by decide)), ofTemplate_blank hd]
  | slash =>
    have hdivides : ofSlash r c = some ⟨r.after (.code '/'), .plain⟩ := by
      have hslash : c ≠ '/' := ne_of_isBlank hblank (by decide)
      have hstar : c ≠ '*' := ne_of_isBlank hblank (by decide)
      have hopens : opensRegex [c] = false := by
        rcases (by simpa [isSpaceOrTab] using hc : c = ' ' ∨ c = '\t') with rfl | rfl <;> rfl
      simp [ofSlash, hslash, hstar, hopens, ofCode_blank _ hblank]
    rw [readAll_cons, next, hdivides, Option.bind_some, readAll_plain_ending hending] at hread
    rw [readAll_slash_ending hending, hread]
  | line text =>
    rw [← List.singleton_append, readAll_append, readAll_line (by simpa using hfeed.symm),
      Option.bind_some, readAll_line_ending _ hending, isDirective_blank hblank] at hread
    rw [readAll_line_ending _ hending, hread]
  | quoted quote p =>
    have hquote : ∀ d, isBlank d = true → d ≠ quote := fun d hd =>
      ne_of_isQuote h (isQuote_of_isBlank hd)
    have hnext : next ⟨r, .quoted quote p⟩ c = some ⟨r, .quoted quote (p.step c)⟩ :=
      ofQuoted_plain p (hquote c hblank) hfeed
    rw [readAll_cons, hnext, Option.bind_some] at hread
    by_cases hp : p = .escape
    · subst hp
      rw [Pending.step_escape_gap hc] at hread
      rcases hending with rfl | rfl
      · simp [next, ofQuoted] at hread
      · simpa [next, ofQuoted, Pending.step, isSpaceOrTab, hquote '\r' (by decide)] using hread
    · rwa [Pending.step_gap hc hp] at hread
  | regex inClass p =>
    have hnext : next ⟨r, .regex inClass p⟩ c = some ⟨r, .regex inClass (p.step c)⟩ := by
      by_cases hp : p = .escape
      · rw [hp]
        exact ofRegex_escape inClass c
      · exact ofRegex_plain hp hfeed (by simp [ne_of_isBlank hblank (d := '/') (by decide)])
          (inClassAfter_blank inClass hblank)
    rw [readAll_cons, hnext, Option.bind_some] at hread
    by_cases hp : p = .escape
    · subst hp
      rw [Pending.step_escape_gap hc] at hread
      rcases hending with rfl | rfl
      · simp [next, ofRegex] at hread
      · simpa [next, ofRegex, Pending.step, isSpaceOrTab, inClassAfter] using hread
    · rwa [Pending.step_gap hc hp] at hread

/-- Spaces and tabs at the end of a line can go. -/
theorem readAll_gaps (h : a.Proper) {gap ending : List Char}
    (hgap : ∀ c ∈ gap, isSpaceOrTab c = true) (hending : Ending ending)
    (hread : a.readAll (gap ++ ending) = some b) : a.readAll ending = some b := by
  induction gap using List.reverseRecOn with
  | nil => exact hread
  | append_singleton gap c ih =>
    simp only [List.mem_append, List.mem_singleton] at hgap
    rw [List.append_assoc, List.singleton_append] at hread
    obtain ⟨m, hfront, hback⟩ := readAll_front hread
    refine ih (fun d hd => hgap d (.inl hd)) ?_
    rw [readAll_append, hfront]
    exact readAll_gap (h.readAll hfront) (hgap c (.inr rfl)) hending hback

/-- **The end of a line can be trimmed.** -/
theorem readAll_trimLine (h : a.Proper) {line : List Char}
    (hread : a.readAll (line ++ ['\n']) = some b) :
    a.readAll (trimLine line ++ ['\n']) = some b := by
  obtain ⟨front, gap, ending, hline, htrim, hgap, hending⟩ := trimLine_cases line
  have hending' : Ending (ending ++ ['\n']) := by
    rcases hending with rfl | rfl
    · exact .inl rfl
    · exact .inr rfl
  rw [hline, List.append_assoc, List.append_assoc] at hread
  obtain ⟨m, hfront, hback⟩ := readAll_front hread
  rw [htrim, List.append_assoc, readAll_append, hfront]
  exact readAll_gaps (h.readAll hfront) hgap hending' hback

/-! ### Rows -/

/-- A reader that has read lines of which the last `run` were blank: after one it is settled, after
two it is between lexemes. -/
structure After (run : Nat) (a : Reader) : Prop where
  proper : a.Proper
  settled : 0 < run → a.Settled
  plain : 1 < run → a.mode = .plain

/-- A line that is not blank stays, without spaces and tabs at its end. -/
theorem After.trimmed {run : Nat} (h : a.After run) {line : List Char}
    (hread : a.readAll ('\n' :: line ++ ['\n']) = some b) :
    ∃ m, a.readAll ('\n' :: trimLine line) = some m ∧ m.Proper ∧ m.next '\n' = some b := by
  obtain ⟨m, hfeed, hback⟩ := Option.bind_eq_some_iff.mp hread
  have hm := h.proper.next hfeed
  obtain ⟨n, hfront, hlast⟩ := readAll_front (readAll_trimLine hm hback)
  refine ⟨n, ?_, hm.readAll hfront, by simpa using hlast⟩
  rw [readAll_cons, hfeed]
  exact hfront

/-- A blank line leaves a line feed and perhaps a carriage return, or nothing. -/
theorem After.blank {run : Nat} (h : a.After run) {line : List Char} (hmem : '\n' ∉ line)
    (hblank : blankLine line = true) (hread : a.readAll ('\n' :: line) = some b) :
    a.readAll (row run line) = some b ∧ b.After (run + 1) := by
  rw [readAll_cons] at hread
  obtain ⟨m, hfeed, hback⟩ := Option.bind_eq_some_iff.mp hread
  have hsettled := settled_of_next_feed h.proper hfeed
  have hall := isBlank_of_blankLine hblank
  rw [hsettled.readAll_blanks hall hmem] at hback
  cases hback
  have hplain : 1 < run + 1 → b.mode = .plain := fun hrun =>
    (h.settled (Nat.lt_of_succ_lt_succ hrun)).next_feed hfeed
  refine ⟨?_, hsettled.proper, fun _ => hsettled, hplain⟩
  rw [row, if_pos hblank]
  split_ifs with hrun
  · rw [readAll_cons, hfeed]
    exact hsettled.readAll_blanks (fun c hc => hall c (mem_of_mem_splitReturn hc))
      fun hc => hmem (mem_of_mem_splitReturn hc)
  · -- between lexemes a line feed is no news
    obtain ⟨r, mode⟩ := a
    obtain rfl : mode = .plain := h.plain (Nat.le_of_not_lt hrun)
    rw [next_plain_blank (by decide)] at hfeed
    exact hfeed

/-- **A reader comes to the same place over a line and over what is left of it.** -/
theorem After.row {run : Nat} (h : a.After run) {line cs : List Char} (hmem : '\n' ∉ line)
    (hread : a.readAll ('\n' :: (line ++ '\n' :: cs)) = some b) :
    ∃ m, a.readAll (row run line) = some m ∧ m.After (nextRun run line) ∧
      m.readAll ('\n' :: cs) = some b := by
  rw [← List.cons_append] at hread
  obtain ⟨m, hfront, hback⟩ := readAll_front hread
  by_cases hblank : blankLine line = true
  · obtain ⟨hrow, hafter⟩ := h.blank hmem hblank hfront
    refine ⟨m, hrow, ?_, hback⟩
    rwa [nextRun, if_pos hblank]
  · rw [readAll_cons] at hback
    obtain ⟨n, hfeed, hrest⟩ := Option.bind_eq_some_iff.mp hback
    have hline : a.readAll ('\n' :: line ++ ['\n']) = some n := by
      rw [readAll_append, hfront]
      simpa using hfeed
    obtain ⟨k, hrow, hproper, hk⟩ := h.trimmed hline
    refine ⟨k, ?_, ?_, ?_⟩
    · rwa [Uncomment.row, if_neg hblank]
    · rw [nextRun, if_neg hblank]
      exact ⟨hproper, by simp, by simp⟩
    · rw [readAll_cons, hk]
      exact hrest

/-- A reader comes to the same place over a text up to a character that is not blank, and over what
is left of it. -/
theorem readAll_rows (hc : Solid c) {run : Nat} (h : a.After run) {front : List Char}
    (hread : a.readAll ('\n' :: (front ++ [c])) = some b) :
    a.readAll (rows run (front ++ [c])) = some b := by
  induction front using line_induction generalizing run a with
  | hlast line hmem =>
    rwa [rows_solid hc run hmem, resume_nil]
  | hline line front hmem ih =>
    rw [List.append_assoc, List.cons_append] at hread ⊢
    obtain ⟨m, hrow, hafter, hrest⟩ := h.row hmem hread
    rw [rows_line run hmem, readAll_append, hrow]
    exact ih hafter hrest

/-! ### The end of a text -/

/-- A text that may end after some blanks may end before them. -/
theorem ends_of_blanks {tail : List Char} (htail : ∀ c ∈ tail, isBlank c = true)
    (hread : a.readAll tail = some b) (hends : b.ends = true) : a.ends = true := by
  induction tail generalizing a with
  | nil =>
    cases hread
    exact hends
  | cons c tail ih =>
    simp only [List.mem_cons, forall_eq_or_imp] at htail
    obtain ⟨m, hnext, hm⟩ := Option.bind_eq_some_iff.mp hread
    have hm := ih htail.2 hm
    obtain ⟨r, mode⟩ := a
    cases mode with
    | line text =>
      simp only [next] at hnext
      split_ifs at hnext with _ hdir
      · exact hdir
      · cases hnext
        exact (isDirective_blank htail.1 text).symm.trans hm
    | _ => rfl

/-- Whether a reader is in a literal, after a space or tab that was taken along. -/
def hanging (a : Reader) : Bool :=
  match a.mode with
  | .quoted _ p => p == .hanging
  | .regex _ p => p == .hanging
  | _ => false

theorem not_hanging_ofCode (r : Reading) (c : Char) : (ofCode r c).hanging = false := by
  unfold ofCode
  split_ifs <;> rfl

theorem not_hanging_ofTemplate (r : Reading) (c : Char) : (ofTemplate r c).hanging = false := by
  unfold ofTemplate
  split_ifs <;> rfl

theorem not_hanging_ofRegex {inClass : Bool} {p : Pending} (hc : isSpaceOrTab c = false)
    (hnext : ofRegex r inClass p c = some b) : b.hanging = false := by
  unfold ofRegex at hnext
  split_ifs at hnext <;> cases hnext
  · simp [hanging, Pending.step_ne_hanging hc]
  · rfl
  · rfl
  · simp [hanging, Pending.step_ne_hanging hc]

/-- Only a space or tab hangs. -/
theorem not_hanging_of_next (hc : isSpaceOrTab c = false) (hnext : a.next c = some b) :
    b.hanging = false := by
  obtain ⟨r, mode⟩ := a
  cases mode with
  | plain =>
    by_cases hplace : r.place = .template
    · rw [next_plain_template hplace] at hnext
      cases hnext
      exact not_hanging_ofTemplate r c
    · rw [next_plain hplace] at hnext
      cases hnext
      exact not_hanging_ofCode r c
  | slash =>
    simp only [next, ofSlash] at hnext
    split_ifs at hnext
    · cases hnext
      rfl
    · exact not_hanging_ofRegex hc hnext
    · cases hnext
      exact not_hanging_ofCode _ c
  | line text =>
    simp only [next] at hnext
    split_ifs at hnext <;> cases hnext <;> rfl
  | quoted quote p =>
    simp only [next, ofQuoted] at hnext
    split_ifs at hnext <;> cases hnext
    · rfl
    · simp [hanging, Pending.step_ne_hanging hc]
  | regex inClass p => exact not_hanging_ofRegex hc hnext
  | flags =>
    simp only [next] at hnext
    split_ifs at hnext <;> cases hnext
    · rfl
    · exact not_hanging_ofCode r c
  | escape =>
    cases hnext
    rfl
  | dollar =>
    simp only [next] at hnext
    split_ifs at hnext <;> cases hnext
    · rfl
    · exact not_hanging_ofTemplate r c

/-- Where a text may end and nothing hangs, a line may end. -/
theorem next_feed_of_ends (hends : a.ends = true) (hhanging : a.hanging = false) :
    ∃ m, a.next '\n' = some m := by
  obtain ⟨r, mode⟩ := a
  cases mode with
  | plain => exact ⟨_, next_plain_blank (by decide)⟩
  | slash => simp [next, ofSlash, opensRegex]
  | line text =>
    have hdir : isDirective text = true := hends
    simp [next, hdir]
  | quoted quote p =>
    have hp : p ≠ .hanging := by simpa [hanging] using hhanging
    simp only [next, ofQuoted, hp, false_and, if_false]
    split_ifs <;> exact ⟨_, rfl⟩
  | regex inClass p =>
    have hp : p ≠ .hanging := by simpa [hanging] using hhanging
    simp only [next, ofRegex, hp, false_and, if_false]
    split_ifs <;> exact ⟨_, rfl⟩
  | flags => exact ⟨_, rfl⟩
  | escape => exact ⟨_, rfl⟩
  | dollar => exact ⟨_, rfl⟩

/-- Where a text may end, it may end after a carriage return. -/
theorem next_return_of_ends (hends : a.ends = true) :
    ∃ m, a.next '\r' = some m ∧ m.ends = true := by
  obtain ⟨r, mode⟩ := a
  cases mode with
  | plain => exact ⟨_, next_plain_blank (by decide), rfl⟩
  | slash =>
    simp only [next, ofSlash]
    rw [if_neg (by decide), if_neg (by decide), ofCode_blank _ (by decide)]
    split_ifs
    · exact ⟨_, rfl, rfl⟩
    · exact ⟨_, rfl, rfl⟩
  | line text =>
    refine ⟨⟨r, .line (text ++ ['\r'])⟩, rfl, ?_⟩
    exact (isDirective_blank (by decide) text).trans hends
  | quoted quote p =>
    simp only [next, ofQuoted]
    rw [if_neg (by simp)]
    split_ifs <;> exact ⟨_, rfl, rfl⟩
  | regex inClass p =>
    simp only [next, ofRegex]
    rw [if_neg (by simp), if_neg (by decide : '\r' ≠ '\n')]
    split_ifs <;> exact ⟨_, rfl, rfl⟩
  | flags =>
    rw [next_flags (by decide), ofCode_blank r (by decide)]
    exact ⟨_, rfl, rfl⟩
  | escape => exact ⟨_, rfl, rfl⟩
  | dollar =>
    simp only [next]
    rw [if_neg (by decide : '\r' ≠ '{'), ofTemplate_blank (by decide)]
    exact ⟨_, rfl, rfl⟩

/-- A text that may end where nothing hangs may get a terminator there. -/
theorem readAll_terminator (h : a.Proper) (hends : a.ends = true) (hhanging : a.hanging = false)
    {ending : List Char} (hending : Ending ending) :
    ∃ e, a.readAll ending = some e ∧ e.ends = true := by
  rcases hending with rfl | rfl
  · obtain ⟨m, hm⟩ := next_feed_of_ends hends hhanging
    exact ⟨m, by simp [hm], (settled_of_next_feed h hm).ends⟩
  · obtain ⟨m, hm, hmends⟩ := next_return_of_ends hends
    obtain ⟨e, he⟩ := next_feed_of_ends hmends (not_hanging_of_next (by decide) hm)
    exact ⟨e, by simp [hm, he], (settled_of_next_feed (h.next hm) he).ends⟩

end Reader

end Scan

open Scan

/-- **Tidying adds no comments.** -/
theorem Clear.tidyChars {cs : List Char} (h : Clear cs) : Clear (tidyChars cs) := by
  obtain ⟨e, hread, hends⟩ := h
  rcases blank_or_solid cs with hblank | ⟨front, c, tail, rfl, hc, htail⟩
  · rw [tidyChars_blank hblank]
    exact ⟨{}, rfl, rfl⟩
  · rw [List.append_cons] at hread
    obtain ⟨m, hfront, hback⟩ := Reader.readAll_front hread
    have hproper : m.Proper := Reader.Proper.readAll (a := {}) trivial hfront
    have hmends := Reader.ends_of_blanks htail hback hends
    have hhanging : m.hanging = false := by
      obtain ⟨n, -, hlast⟩ := Reader.readAll_front hfront
      exact Reader.not_hanging_of_next hc.not_spaceOrTab (by simpa using hlast)
    -- the text is read as if a line feed came before it
    have hfeed : Reader.next {} '\n' = some {} := Reader.next_plain_blank (by decide)
    have hafter : Reader.After 0 {} := ⟨trivial, by simp, by simp⟩
    have hrows : Reader.readAll {} (tidyLines (front ++ [c])) = some m := by
      have hline : Reader.readAll {} ('\n' :: (front ++ [c])) = some m := by
        rw [Reader.readAll_cons, hfeed]
        exact hfront
      have hrows := Reader.readAll_rows hc hafter hline
      rwa [rows_zero, Reader.readAll_cons, hfeed] at hrows
    have hending : Reader.Ending (finalTerminator (front ++ c :: tail)) := by
      unfold finalTerminator
      split_ifs
      · exact .inr rfl
      · exact .inl rfl
    obtain ⟨e, hterm, he⟩ := Reader.readAll_terminator hproper hmends hhanging hending
    refine ⟨e, ?_, he⟩
    rw [tidyChars_solid hc front htail, Reader.readAll_append, hrows]
    exact hterm

end Uncomment

