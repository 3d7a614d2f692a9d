/-
# What comments take away

A line comment takes at least its two slashes away, a closed block comment its two delimiters, one
that is never closed its opening delimiter, and a comment alone in braces the braces as well. So
what is written, together with what the counted comments take at least, weighs no more than what
was read (`Weighed`). Every step keeps that, also where it takes braces back from what was written
before.

It follows that a text is changed if and only if a comment is removed from it, and that a file is
reported as modified, or fails to be written, if and only if that happens. The reported number of
bytes is then the difference of two sizes of which the second one is smaller.

Key definitions: `Stats.toll`, `Scan.Weighed`, `Scan.Copies`, `Stripped.openComments`.
Key theorems: `Scan.Weighed.step`, `Scan.Copies.step`, `strip_text_eq_iff`, `strip_size`.
-/
import Uncomment.Proofs.Faults
import Uncomment.Proofs.SecondRun

namespace Uncomment

open Text

/-! ### Sizes -/

theorem byteSize_reverse (cs : List Char) : byteSize cs.reverse = byteSize cs := by
  induction cs with
  | nil => rfl
  | cons c cs ih =>
    rw [List.reverse_cons, byteSize_append, ih, byteSize_cons, byteSize_cons, byteSize_nil]
    omega

/-- The line feeds of a text are no more than the text. -/
theorem byteSize_feeds_le (cs : List Char) :
    byteSize (List.replicate (cs.count '\n') '\n') ≤ byteSize cs := by
  apply byteSize_le_of_sublist
  exact List.replicate_sublist_iff.mpr (Nat.le_refl _)

/-- The number of bytes that counted comments take away at least, if all are closed. -/
def Stats.toll (s : Stats) : Nat := 2 * s.lineComments + 4 * s.blockComments + 6 * s.jsxComments

theorem Stats.toll_add (s t : Stats) : (s + t).toll = s.toll + t.toll := by
  simp only [toll, Stats.add_def]
  omega

/-- One for a block comment that is never closed. -/
def Lexeme.openComments : Lexeme → Nat
  | blockComment _ false => 1
  | _ => 0

namespace Scan

/-- The number of comments found that are never closed. -/
def State.openComments (s : State) : Nat := s.faults.countP (fun f => f.defect = .comment)

/-! ### What a lexeme takes away -/

theorem openComments_note {s : State} (closed : Bool) {defect : Defect} (h : defect ≠ .comment)
    (text : List Char) :
    (s.note closed defect text).countP (fun f => f.defect = .comment) = s.openComments := by
  unfold State.note State.openComments
  cases closed with
  | true => rfl
  | false => simp [h]

theorem openComments_absorb (s : State) (l : Lexeme) (rest : List Char) :
    (absorb s l rest).openComments = s.openComments + l.openComments := by
  cases l with
  | quoted quote body closed => exact openComments_note closed (by simp) _
  | regex body closed => exact openComments_note closed (by simp) _
  | blockComment body closed =>
    cases closed with
    | true => rfl
    | false => simp [State.openComments, absorb, State.note, Lexeme.openComments]
  | _ => rfl

/-- A closed comment is larger than its line feeds by its closing delimiter. -/
theorem byteSize_closed {body rest : List Char} (h : BlockBody true body rest) :
    byteSize (List.replicate (body.count '\n') '\n') + 2 ≤ byteSize body := by
  cases h with
  | closed inner _ _ =>
    have hfeeds := byteSize_feeds_le inner
    have hcount : (inner ++ ['*', '/']).count '\n' = inner.count '\n' := by simp
    have hsize : byteSize (inner ++ ['*', '/']) = byteSize inner + 2 := byteSize_append ..
    rw [hcount, hsize]
    omega

/-- What a lexeme leaves and what it takes away at least weigh no more than its text. -/
theorem Fits.size_le {r : Reading} {l : Lexeme} {rest : List Char} (h : Fits r l rest) :
    byteSize l.leaves + l.counts.toll ≤ byteSize l.text + 2 * l.openComments := by
  cases h with
  | @lineComment body ending =>
    have hsize : byteSize (Lexeme.lineComment body ending).text =
        2 + byteSize body + byteSize ending := by
      simp [Lexeme.text, Char.utf8Size]
      omega
    rw [hsize]
    simp only [Lexeme.leaves, Lexeme.counts, Stats.toll]
    omega
  | @blockComment body _ closed _ hbody =>
    have hsize : byteSize (Lexeme.blockComment body closed).text = 2 + byteSize body := by
      simp [Lexeme.text, Char.utf8Size]
      omega
    rw [hsize]
    cases closed with
    | true =>
      have := byteSize_closed hbody
      simp only [Lexeme.leaves, Lexeme.counts, Stats.toll]
      omega
    | false =>
      have := byteSize_feeds_le body
      simp only [Lexeme.leaves, Lexeme.counts, Stats.toll, Lexeme.openComments]
      omega
  | _ => simp [Lexeme.leaves, Lexeme.counts, Stats.toll]

/-- What is left after a brace is taken back is smaller by the brace at least. -/
theorem byteSize_dropBrace {out : List Char} (h : followsBrace out = true) :
    byteSize (dropBrace out) + 1 ≤ byteSize out := by
  rw [followsBrace, beq_iff_eq, List.head?_eq_some_iff] at h
  obtain ⟨back, hback⟩ := h
  have hdrop : byteSize (dropBrace out) ≤ byteSize back := by
    rw [dropBrace, hback, List.drop_one, List.tail_cons]
    exact byteSize_le_of_sublist (List.dropWhile_sublist _)
  have hbrace : byteSize ('{' :: back) ≤ byteSize out := by
    rw [← hback]
    exact byteSize_le_of_sublist (List.dropWhile_sublist _)
  have hsize : byteSize ('{' :: back) = 1 + byteSize back := rfl
  omega

/-- A comment that takes its braces with it takes six bytes away at least. -/
theorem size_jsx_le {body rest out : List Char} (hbody : BlockBody true body rest)
    (hout : followsBrace out = true) (blanks : List Char) :
    byteSize (feeds body ++ dropBrace out) + 6 ≤
      byteSize out + byteSize (Lexeme.jsxComment body (blanks ++ ['}'])).text := by
  have hclosed := byteSize_closed hbody
  have hbrace := byteSize_dropBrace hout
  have hsize : byteSize (Lexeme.jsxComment body (blanks ++ ['}'])).text =
      2 + byteSize body + byteSize blanks + 1 := by
    simp [Lexeme.text, Char.utf8Size]
    omega
  rw [byteSize_append, feeds_eq, hsize]
  omega

/-! ### What a scan takes away -/

/-- What is written and what the counted comments take at least weigh no more than what was read,
where two bytes are not asked of each comment that is never closed. -/
structure Weighed (s : State) : Prop where
  size : byteSize s.out + s.stats.toll ≤ s.pos + 2 * s.openComments
  counted : s.openComments ≤ s.stats.blockComments

/-- **What a step keeps.** -/
theorem Weighed.step {o : ScanOptions} {s : State} (h : Weighed s) (c : Char) (cs : List Char) :
    Weighed (step o s c cs) := by
  obtain ⟨hsize, hcounted⟩ := h
  have hpos : (Scan.step o s c cs).pos = s.pos + byteSize (next o s c cs).1.text := pos_absorb ..
  have hstats : (Scan.step o s c cs).stats = s.stats + (next o s c cs).1.counts := stats_absorb ..
  have hopen : (Scan.step o s c cs).openComments =
      s.openComments + (next o s c cs).1.openComments := openComments_absorb ..
  rcases next_cases o s c cs with hnext | ⟨body, blanks, rest, -, -, hbrace, -, hjsx, hplain⟩
  · have hfits := fits_next s c cs
    rw [← hnext] at hfits
    have hlexeme := hfits.size_le
    have hout : byteSize (Scan.step o s c cs).out =
        byteSize (next o s c cs).1.leaves + byteSize s.out := by
      rw [Scan.step, out_absorb s hfits, byteSize_append, byteSize_reverse]
    have hcount : (next o s c cs).1.openComments ≤ (next o s c cs).1.counts.blockComments := by
      cases (next o s c cs).1 with
      | blockComment body closed => cases closed <;> simp [Lexeme.openComments, Lexeme.counts]
      | _ => simp [Lexeme.openComments]
    constructor
    · rw [hout, hstats, hpos, hopen, Stats.toll_add]
      omega
    · rw [hopen, hstats, Stats.add_def]
      exact Nat.add_le_add hcounted hcount
  · -- the braces before the comment are taken back from what was written
    have hfits := fits_next s c cs
    rw [hplain] at hfits
    have hbody : BlockBody true body (blanks ++ '}' :: rest) := by
      cases hfits with
      | blockComment _ hbody => exact hbody
    have htaken := size_jsx_le hbody hbrace blanks
    have hout : (Scan.step o s c cs).out = feeds body ++ dropBrace s.out := by
      rw [Scan.step, hjsx]
      rfl
    rw [hjsx] at hpos hstats hopen
    constructor
    · rw [hout, hstats, hpos, hopen, Stats.toll_add]
      simp only [Lexeme.counts, Stats.toll, Lexeme.openComments] at hsize ⊢
      omega
    · rw [hopen, hstats]
      exact hcounted

theorem weighed_run (o : ScanOptions) (source : List Char) :
    Weighed (run o { rest := source }) := by
  have hstart : Weighed { rest := source } := ⟨Nat.le_refl _, Nat.le_refl _⟩
  exact (reaches_run o _).keeps (fun _ c cs _ h => h.step c cs) hstart

/-! ### What a scan copies -/

theorem isComment_of_removed {l : Lexeme} (h : l.counts.removed = 0) : l.isComment = false := by
  cases l <;> first | rfl | simp [Lexeme.counts, Stats.removed] at h

/-- As long as no comment is removed, what was read is written. -/
def Copies (source : List Char) (s : State) : Prop :=
  ∃ front, Reads source s front ∧ (s.stats.removed = 0 → s.out = front.reverse)

theorem Copies.step {o : ScanOptions} {source : List Char} {s : State} {c : Char} {cs : List Char}
    (h : Copies source s) (hrest : s.rest = c :: cs) : Copies source (step o s c cs) := by
  obtain ⟨front, hreads, hcopies⟩ := h
  refine ⟨_, hreads.step hrest, fun hremoved => ?_⟩
  have hstats : (Scan.step o s c cs).stats = s.stats + (next o s c cs).1.counts := stats_absorb ..
  rw [hstats, removed_add] at hremoved
  have hcomment : (next o s c cs).1.isComment = false := isComment_of_removed (by omega)
  have hout : s.out = front.reverse := hcopies (by omega)
  rcases fits_or_jsx o s c cs with hfits | ⟨-, body, tail, hjsx⟩
  · rw [Scan.step, out_absorb s hfits, leaves_of_not_comment hcomment, hout, List.reverse_append]
  · rw [hjsx] at hcomment
    cases hcomment

theorem copies_run (o : ScanOptions) (source : List Char) :
    (run o { rest := source }).stats.removed = 0 →
      (run o { rest := source }).out = source.reverse := by
  have hstart : Copies source { rest := source } := ⟨[], reads_start source, fun _ => rfl⟩
  obtain ⟨front, hreads, hcopies⟩ := (reaches_run o { rest := source }).keeps
    (P := Copies source) (fun _ _ _ hrest h => h.step hrest) hstart
  have hsource := hreads.source_eq
  rw [rest_run, List.append_nil] at hsource
  intro hremoved
  rw [hcopies hremoved, ← hsource]

end Scan

/-! ### Stripped texts -/

/-- The number of diagnostics on comments that are never closed. -/
def Stripped.openComments (r : Stripped) : Nat :=
  r.diagnostics.countP (fun d => d.code.id = "DCM1005")

theorem openComments_strip (o : ScanOptions) (source : String) :
    (strip o source).openComments = (Scan.run o { rest := source.toList }).openComments := by
  have hopen : (Scan.run o { rest := source.toList }).openFaults.countP
      (fun f => f.defect = .comment) = 0 := by
    rw [List.countP_eq_zero]
    intro fault hfault
    rw [Scan.State.openFaults, List.mem_map] at hfault
    obtain ⟨f, -, rfl⟩ := hfault
    cases f <;> simp [Scan.Frame.defect]
  have hid : ∀ fault : Fault, (fault.locate (LineIndex.ofChars source.toList)).code.id = "DCM1005" ↔
      fault.defect = .comment := fun fault => Defect.id_eq_comment fault.defect
  unfold Stripped.openComments Scan.State.openComments
  simp only [strip, List.countP_map, Function.comp_def, hid]
  rw [Scan.State.allFaults, List.countP_append, List.countP_reverse, hopen, Nat.add_zero]

theorem utf8ByteSize_strip (o : ScanOptions) (source : String) :
    (strip o source).text.utf8ByteSize = byteSize (Scan.run o { rest := source.toList }).out := by
  rw [← byteSize_toList]
  simp [strip, byteSize_reverse]

/-- What is left of a text and what its comments take at least weigh no more than the text. -/
theorem toll_strip (o : ScanOptions) (source : String) :
    (strip o source).text.utf8ByteSize + (strip o source).stats.toll ≤
        source.utf8ByteSize + 2 * (strip o source).openComments ∧
      (strip o source).openComments ≤ (strip o source).stats.blockComments := by
  have hweighed := Scan.weighed_run o source.toList
  have hsize := hweighed.size
  rw [Scan.pos_run, byteSize_toList, ← openComments_strip, ← utf8ByteSize_strip] at hsize
  have hcounted := hweighed.counted
  rw [← openComments_strip] at hcounted
  exact ⟨hsize, hcounted⟩

/-- Each removed comment takes two bytes away at least. -/
theorem two_mul_removed_le (o : ScanOptions) (source : String) :
    (strip o source).text.utf8ByteSize + 2 * (strip o source).stats.removed ≤
      source.utf8ByteSize := by
  obtain ⟨hsize, hcounted⟩ := toll_strip o source
  simp only [Stats.toll] at hsize
  simp only [Stats.removed]
  omega

/-- A text is left as it is if and only if no comment is removed from it. -/
theorem strip_text_eq_iff (o : ScanOptions) (source : String) :
    (strip o source).text = source ↔ (strip o source).stats.removed = 0 := by
  constructor
  · intro htext
    have hsize := two_mul_removed_le o source
    rw [htext] at hsize
    omega
  · intro hremoved
    have hcopies := Scan.copies_run o source.toList hremoved
    simp [strip, hcopies]

/-! ### Reports -/

/-- Whether a file changed, or failed to be written. -/
def FileReport.Changes (r : FileReport) : Prop :=
  r.isModified = true ∨ ∃ path e, r.outcome = .failed (.write path e)

/-- The report on a file from which a text is read: the text is judged, or it changed and could not
be written. -/
theorem report_cases {o : Options} {w : World} {path source : String}
    (hread : w.reads path = .ok source.toUTF8) :
    w.gives (processFile o path) = o.judgeText path source ∨
      (o.clean source).text ≠ source ∧
        ∃ e, (w.gives (processFile o path)).outcome = .failed (.write path e) := by
  have hjudge : o.judge path (w.reads path) = o.judgeText path source := by
    rw [hread, o.judge_toUTF8]
  by_cases hsame : (o.clean source).text = source
  · left
    have hidle : (o.judge path (w.reads path)).isModified = false := by
      rw [hjudge]
      exact (o.isModified_judgeText path source).mpr hsame
    rw [(processFile_idle hidle).1, hjudge]
  · have hprocessed := processed_file o w path
    generalize w.gives (processFile o path) = r at hprocessed
    generalize w.after (processFile o path) = w' at hprocessed
    cases hprocessed with
    | kept => exact Or.inl hjudge
    | stored => exact Or.inl hjudge
    | refused => exact Or.inr ⟨hsame, _, rfl⟩

/-- **What comments take away.** A stripped text is smaller than its source by what its comments
take at least; it is the source if and only if no comment is removed. A file with a text that is not
to be tidied is reported as modified, or fails to be written, if and only if a comment is removed,
and the reported number of bytes is the difference of the sizes. -/
theorem strip_size :
    (∀ (o : ScanOptions) (source : String),
      (strip o source).openComments ≤ 1 ∧
      (strip o source).openComments ≤ (strip o source).stats.blockComments ∧
      (strip o source).text.utf8ByteSize + 2 * (strip o source).stats.lineComments +
        4 * ((strip o source).stats.blockComments - (strip o source).openComments) +
        2 * (strip o source).openComments + 6 * (strip o source).stats.jsxComments ≤
          source.utf8ByteSize ∧
      (strip o source).text.utf8ByteSize ≤ source.utf8ByteSize ∧
      ((strip o source).text = source ↔ (strip o source).stats.removed = 0)) ∧
    ∀ (o : Options) (w : World) (path source : String), o.tidy = false →
      w.reads path = .ok source.toUTF8 →
      ((w.gives (processFile o path)).Changes ↔ 0 < (strip o.scan source).stats.removed) ∧
      ∀ n written, (w.gives (processFile o path)).outcome = .modified n written →
        (w.gives (processFile o path)).stats = (strip o.scan source).stats ∧
        n + (strip o.scan source).text.utf8ByteSize = source.utf8ByteSize ∧
        2 * (strip o.scan source).stats.removed ≤ n := by
  constructor
  · intro o source
    obtain ⟨hsize, hcounted⟩ := toll_strip o source
    have hnoted := Scan.noted_of_reaches (Scan.reaches_run o { rest := source.toList })
    have hone : (strip o source).openComments ≤ 1 := by
      rw [openComments_strip]
      exact hnoted.countP_comment_le
    simp only [Stats.toll] at hsize
    exact ⟨hone, hcounted, by omega, by omega, strip_text_eq_iff o source⟩
  · intro o w path source htidy hread
    have hclean : o.clean source = strip o.scan source := by simp [Options.clean, htidy]
    have hsize := two_mul_removed_le o.scan source
    have hiff := strip_text_eq_iff o.scan source
    rcases report_cases (o := o) hread with hreport | ⟨hchange, e, hfailed⟩
    · rw [hreport]
      by_cases hsame : (o.clean source).text = source
      · have houtcome := o.outcome_judgeText_of_eq path hsame
        rw [hclean, hiff] at hsame
        constructor
        · simp [FileReport.Changes, FileReport.isModified, houtcome, hsame]
        · intro n written hmodified
          rw [houtcome] at hmodified
          cases hmodified
      · have houtcome := o.outcome_judgeText_of_ne path hsame
        rw [hclean] at houtcome
        rw [hclean, hiff] at hsame
        constructor
        · simp only [FileReport.Changes, FileReport.isModified, houtcome, true_or, true_iff]
          omega
        · intro n written hmodified
          rw [houtcome] at hmodified
          cases hmodified
          refine ⟨?_, by omega, by omega⟩
          rw [Options.judgeText, hclean]
    · rw [hclean, Ne, hiff] at hchange
      constructor
      · refine iff_of_true (Or.inr ⟨path, e, hfailed⟩) (by omega)
      · intro n written hmodified
        rw [hfailed] at hmodified
        cases hmodified

/-- A comment of each kind: one of two slashes, one without contents, one in braces with blanks, and
one whose only star does not close it. -/
theorem strip_size_each_kind :
    let source := "a //\n/**/ <é>\x7b /*ü\n*/\t\x7d /*/"
    let w : World := { tree := .folder [("a.js", .file 0o644 source.toUTF8)] }
    let o : Options := { tidy := false }
    w.reads "a.js" = .ok source.toUTF8 ∧
    (w.gives (processFile o "a.js")).outcome = .modified 19 true ∧
    (w.gives (processFile o "a.js")).stats = ⟨1, 2, 1, 0⟩ ∧
    (strip o.scan source).openComments = 1 ∧
    (w.gives (processFile o "a.js")).Changes ∧
    19 + (strip o.scan source).text.utf8ByteSize = source.utf8ByteSize ∧
    2 * (strip o.scan source).stats.removed ≤ 19 := by
  intro source w o
  have hholds : w.Holds source := ⟨rfl, rfl⟩
  have hreport := hholds.report (processed_file o w "a.js")
  have hjudged : (o.judgeText "a.js" source).outcome = .modified 19 true ∧
      (o.judgeText "a.js" source).stats = ⟨1, 2, 1, 0⟩ := by decide +kernel
  rw [← hreport] at hjudged
  obtain ⟨hchanges, hmodified⟩ := strip_size.2 o w "a.js" source rfl hholds.reads
  obtain ⟨-, hbytes, hremoved⟩ := hmodified 19 true hjudged.1
  refine ⟨hholds.reads, hjudged.1, hjudged.2, by decide +kernel, hchanges.mpr ?_, hbytes, hremoved⟩
  decide +kernel

end Uncomment
