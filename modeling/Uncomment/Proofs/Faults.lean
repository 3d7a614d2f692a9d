/-
# Where faults are

A fault covers a text of the source, and the text shows what is wrong: it starts with the mark
that opens what is left open, and it ends where the scan gave up on it (`Defect.Shows`). The
source is what stands before the text, the text, and what follows it, so that a fault starts and
ends between characters, and its position is found by counting in what stands before.

A step takes note of one fault at most, and the fault covers what the step reads
(`faults_step`). So the faults found on the way follow one another without overlap, and a
comment that is never closed is the last of them (`Noted`). The faults on the frames that are
open at the end come after them, and reach to the end of the source.

Key definitions: `Defect.Shows`, `Fault.Covers`, `Scan.Noted`, `Diagnostic.Sound`.
Key theorems: `Scan.faults_step`, `Scan.Noted.step`, `Scan.covers_allFaults`, `diagnostics_sound`.
-/
import Uncomment.Proofs.Frames
import Uncomment.Proofs.Positions

namespace Uncomment

open Text

/-! ### What a fault covers -/

/-- Whether a text, and what follows it, show a defect. A string ends after a line feed, a regular
expression before one, and everything else at the end of the source. -/
def Defect.Shows : Defect → List Char → List Char → Prop
  | string quote, text, after =>
    isQuote quote = true ∧ text.head? = some quote ∧ (after = [] ∨ text.getLast? = some '\n')
  | template, text, after => text.head? = some backtick ∧ after = []
  | interpolation, text, after => ['$', '{'] <+: text ∧ after = []
  | regex, text, after => text.head? = some '/' ∧ (after = [] ∨ after.head? = some '\n')
  | comment, text, after => ['/', '*'] <+: text ∧ ¬ ['*', '/'] <:+: text.drop 2 ∧ after = []

/-- A text that shows a defect is not empty. -/
theorem Defect.Shows.text_ne {defect : Defect} {text after : List Char}
    (h : defect.Shows text after) : text ≠ [] := by
  rintro rfl
  cases defect <;> simp [Defect.Shows] at h

/-- Whether a fault covers the middle one of three parts of a source, which shows the defect. -/
structure Fault.Covers (source : List Char) (fault : Fault) (before text after : List Char) :
    Prop where
  source_eq : source = before ++ text ++ after
  start_eq : fault.span.start = byteSize before
  stop_eq : fault.span.stop = byteSize (before ++ text)
  shows : fault.defect.Shows text after

theorem byteSize_pos {cs : List Char} (h : cs ≠ []) : 0 < byteSize cs := by
  obtain ⟨c, ds, rfl⟩ := List.exists_cons_of_ne_nil h
  have := c.utf8Size_pos
  rw [byteSize_cons]
  omega

namespace Fault.Covers

variable {source before text after : List Char} {fault : Fault}

theorem start_lt_stop (h : fault.Covers source before text after) :
    fault.span.start < fault.span.stop := by
  have hpos := byteSize_pos h.shows.text_ne
  rw [h.start_eq, h.stop_eq, byteSize_append]
  omega

theorem stop_le (h : fault.Covers source before text after) :
    fault.span.stop ≤ byteSize source := by
  rw [h.source_eq, h.stop_eq, byteSize_append (before ++ text)]
  omega

/-- The position of a fault is found by counting in what stands before it. -/
theorem position_eq (h : fault.Covers source before text after) :
    (LineIndex.ofChars source).position fault.span.start =
      ⟨1 + before.count '\n', 1 + byteSize (before.rtakeWhile (· ≠ '\n'))⟩ := by
  rw [h.source_eq, h.start_eq, List.append_assoc]
  exact LineIndex.position_eq before (text ++ after)

end Fault.Covers

theorem Span.stop_between {start stop : Nat} (h : start ≤ stop) :
    (Span.between start stop).stop = stop := Nat.max_eq_left h

namespace Scan

/-! ### What a step takes note of -/

theorem shows_quoted {quote : Char} {body ending rest : List Char}
    (hquote : isQuote quote = true) (hend : QuotedEnd quote false ending rest) :
    (Defect.string quote).Shows (Lexeme.quoted quote (body ++ ending) false).text rest := by
  refine ⟨hquote, rfl, ?_⟩
  cases hend with
  | feed => exact Or.inr (by simp [Lexeme.text, List.getLast?_cons])
  | stop => exact Or.inl rfl
  | backslash => exact Or.inl rfl

theorem shows_regex {body ending rest : List Char} {inClass : Bool}
    (hend : RegexEnd inClass false ending rest) :
    Defect.regex.Shows (Lexeme.regex (body ++ ending) false).text rest := by
  refine ⟨rfl, ?_⟩
  cases hend with
  | feed => exact Or.inr rfl
  | stop => exact Or.inl rfl
  | backslash => exact Or.inl rfl

theorem shows_comment {body rest : List Char} (h : BlockBody false body rest) :
    Defect.comment.Shows (Lexeme.blockComment body false).text rest := by
  cases h with
  | stop hbody => exact ⟨⟨body, rfl⟩, hbody, rfl⟩

/-- The fault that covers a text which starts at a state. -/
def State.faultOn (s : State) (defect : Defect) (text : List Char) : Fault :=
  ⟨defect, Span.between s.pos (s.pos + byteSize text)⟩

/-- A lexeme that fits is closed, or is taken note of as what shows a defect. -/
theorem faults_absorb {s : State} {l : Lexeme} {rest : List Char} (hfits : Fits s.reading l rest) :
    (absorb s l rest).faults = s.faults ∨
      ∃ defect : Defect, defect.Shows l.text rest ∧
        (absorb s l rest).faults = s.faultOn defect l.text :: s.faults := by
  cases hfits with
  | @quoted quote body ending _ closed _ hquote _ hend =>
    cases closed with
    | true => exact Or.inl rfl
    | false => exact Or.inr ⟨.string quote, shows_quoted hquote hend, rfl⟩
  | @regex body ending _ closed _ _ _ _ _ hend =>
    cases closed with
    | true => exact Or.inl rfl
    | false => exact Or.inr ⟨.regex, shows_regex hend, rfl⟩
  | @blockComment body _ closed _ hbody =>
    cases closed with
    | true => exact Or.inl rfl
    | false => exact Or.inr ⟨.comment, shows_comment hbody, rfl⟩
  | _ => exact Or.inl rfl

/-- **A step takes note of one fault at most**, and the fault covers what is read. -/
theorem faults_step (o : ScanOptions) (s : State) (c : Char) (cs : List Char) :
    (step o s c cs).faults = s.faults ∨
      ∃ defect : Defect, defect.Shows (next o s c cs).1.text (next o s c cs).2 ∧
        (step o s c cs).faults = s.faultOn defect (next o s c cs).1.text :: s.faults := by
  rcases fits_or_jsx o s c cs with hfits | ⟨-, body, tail, hjsx⟩
  · exact faults_absorb hfits
  · left
    rw [step, hjsx]
    rfl

/-! ### The faults found on the way -/

/-- What holds of the faults that a scan of a source has found, last one first. -/
structure Noted (source : List Char) (s : State) : Prop where
  covers : ∀ f ∈ s.faults, ∃ before text after, f.Covers source before text after
  stop_le : ∀ f ∈ s.faults, f.span.stop ≤ s.pos
  apart : s.faults.Pairwise fun f g => g.span.stop ≤ f.span.start
  /-- A comment that is never closed leaves nothing to be read. -/
  ended : ∀ f ∈ s.faults, f.defect = .comment → s.rest = []
  last : ∀ f ∈ s.faults.tail, f.defect ≠ .comment

theorem noted_start (source : List Char) : Noted source { rest := source } where
  covers := by simp
  stop_le := by simp
  apart := .nil
  ended := by simp
  last := by simp

/-- **What a step keeps.** -/
theorem Noted.step {o : ScanOptions} {source front : List Char} {s : State} {c : Char}
    {cs : List Char} (h : Noted source s) (hreads : Reads source s front)
    (hrest : s.rest = c :: cs) : Noted source (step o s c cs) := by
  have hpos : (Scan.step o s c cs).pos = s.pos + byteSize (next o s c cs).1.text := pos_absorb ..
  have hafter : (Scan.step o s c cs).rest = (next o s c cs).2 := absorb_rest ..
  -- as long as there is something to be read, every comment is closed
  have hclosed : ∀ f ∈ s.faults, f.defect ≠ .comment := by
    intro f hf hcomment
    have hnil := h.ended f hf hcomment
    rw [hrest] at hnil
    cases hnil
  rcases faults_step o s c cs with hsame | ⟨defect, hshows, hnew⟩
  · refine ⟨hsame ▸ h.covers, ?_, hsame ▸ h.apart, ?_, hsame ▸ h.last⟩
    · intro f hf
      have := h.stop_le f (hsame ▸ hf)
      omega
    · intro f hf hcomment
      exact absurd hcomment (hclosed f (hsame ▸ hf))
  · have hcovers : (s.faultOn defect (next o s c cs).1.text).Covers source front
        (next o s c cs).1.text (next o s c cs).2 := by
      refine ⟨?_, hreads.pos_eq, ?_, hshows⟩
      · rw [List.append_assoc, next_append, ← hrest]
        exact hreads.source_eq
      · rw [byteSize_append, ← hreads.pos_eq]
        exact Span.stop_between (Nat.le_add_right ..)
    have hstop : (s.faultOn defect (next o s c cs).1.text).span.stop =
        s.pos + byteSize (next o s c cs).1.text := Span.stop_between (Nat.le_add_right ..)
    rw [← hafter] at hshows
    constructor
    · rw [hnew, List.forall_mem_cons]
      exact ⟨⟨_, _, _, hcovers⟩, h.covers⟩
    · rw [hnew, List.forall_mem_cons, hpos, hstop]
      refine ⟨Nat.le_refl _, fun f hf => ?_⟩
      have := h.stop_le f hf
      omega
    · rw [hnew, List.pairwise_cons]
      exact ⟨h.stop_le, h.apart⟩
    · rw [hnew, List.forall_mem_cons]
      refine ⟨?_, fun f hf hcomment => absurd hcomment (hclosed f hf)⟩
      rintro (rfl : defect = .comment)
      exact hshows.2.2
    · rw [hnew, List.tail_cons]
      exact hclosed

/-- At most one comment is never closed. -/
theorem Noted.countP_comment_le {source : List Char} {s : State} (h : Noted source s) :
    s.faults.countP (fun f => f.defect = .comment) ≤ 1 := by
  have hlast := h.last
  cases hfaults : s.faults with
  | nil => simp
  | cons f fs =>
    rw [hfaults, List.tail_cons] at hlast
    have hnone : fs.countP (fun f => f.defect = .comment) = 0 := by
      rw [List.countP_eq_zero]
      intro g hg
      simpa using hlast g hg
    rw [List.countP_cons, hnone]
    split_ifs <;> omega

/-- At every state of a scan, the faults are noted. -/
theorem noted_of_reaches {o : ScanOptions} {source : List Char} {s : State}
    (h : Reaches o { rest := source } s) : Noted source s := by
  have hboth : (∃ front, Reads source s front) ∧ Noted source s := by
    refine h.keeps (P := fun s => (∃ front, Reads source s front) ∧ Noted source s) ?_
      ⟨⟨[], reads_start source⟩, noted_start source⟩
    rintro s c cs hrest ⟨⟨front, hreads⟩, hnoted⟩
    exact ⟨⟨_, hreads.step hrest⟩, hnoted.step hreads hrest⟩
  exact hboth.2

/-! ### All faults of a scan -/

theorem rest_run (o : ScanOptions) (s : State) : (run o s).rest = [] := by
  induction s using scan_induction o with
  | hnil s h => rw [run_nil o h, h]
  | hcons s c cs h ih => rw [run_cons o h, ih]

/-- At its end, a scan has read the source. -/
theorem pos_run (o : ScanOptions) (source : List Char) :
    (run o { rest := source }).pos = byteSize source := by
  obtain ⟨front, hreads⟩ := (reaches_run o { rest := source }).reads
  have hsource := hreads.source_eq
  rw [rest_run, List.append_nil] at hsource
  rw [hreads.pos_eq, ← hsource]

theorem Frame.shows_mark (f : Frame) (back : List Char) : f.defect.Shows (f.mark ++ back) [] := by
  cases f with
  | template start => exact ⟨rfl, rfl⟩
  | interpolation start depth => exact ⟨⟨back, rfl⟩, rfl⟩

/-- What is open at the end is covered from its mark on. -/
theorem covers_openFaults (o : ScanOptions) (source : List Char) :
    ∀ f ∈ (run o { rest := source }).openFaults,
      ∃ before text after, f.Covers source before text after := by
  have hstacked := stacked_of_reaches (reaches_run o { rest := source })
  have hend := pos_run o source
  intro fault hfault
  rw [State.openFaults, List.mem_map] at hfault
  obtain ⟨f, hf, rfl⟩ := hfault
  have hframe : f ∈ (run o { rest := source }).frames := List.mem_reverse.mp hf
  obtain ⟨before, back, hsource, hstart⟩ := hstacked.marked f hframe
  have hlt := hstacked.start_lt f hframe
  refine ⟨before, f.mark ++ back, [], ?_, hstart.symm, ?_, f.shows_mark back⟩
  · rw [List.append_nil, ← List.append_assoc]
    exact hsource
  · rw [← List.append_assoc, ← hsource, ← hend]
    exact Span.stop_between (Nat.le_of_lt hlt)

/-- **Every fault covers a text of the source that shows what is wrong.** -/
theorem covers_allFaults (o : ScanOptions) (source : List Char) :
    ∀ f ∈ (run o { rest := source }).allFaults,
      ∃ before text after, f.Covers source before text after := by
  intro f hf
  rcases List.mem_append.mp hf with hfound | hopen
  · have hnoted := noted_of_reaches (reaches_run o { rest := source })
    exact hnoted.covers f (List.mem_reverse.mp hfound)
  · exact covers_openFaults o source f hopen

end Scan

/-! ### Diagnostics -/

/-- What holds of a diagnostic on a source that is cut in three parts: it covers the middle one,
which shows the defect, and its line and column are found by counting in the first. -/
structure Diagnostic.Sound (source : List Char) (d : Diagnostic) (before text after : List Char) :
    Prop extends d.toFault.Covers source before text after where
  line : d.position.line = 1 + before.count '\n'
  column : d.position.column = 1 + byteSize (before.rtakeWhile (· ≠ '\n'))

/-- A fault that covers a text is located where the text starts. -/
theorem Fault.Covers.sound {source before text after : List Char} {fault : Fault}
    (h : fault.Covers source before text after) :
    (fault.locate (LineIndex.ofChars source)).Sound source before text after where
  toCovers := h
  line := congrArg Position.line h.position_eq
  column := congrArg Position.column h.position_eq

theorem Diagnostic.severity_eq_info (d : Diagnostic) :
    d.severity = .info ↔ d.code.id = "DCM1004" := by
  unfold Diagnostic.severity
  cases d.code <;> decide

theorem Scan.FoundOnTheWay.id {fault : Fault} (h : FoundOnTheWay fault) :
    fault.defect.code.id = "DCM1001" ∨ fault.defect.code.id = "DCM1004" ∨
      fault.defect.code.id = "DCM1005" := by
  obtain ⟨htemplate, hinterpolation⟩ := h
  cases hdefect : fault.defect with
  | string quote => exact Or.inl rfl
  | template => exact absurd hdefect htemplate
  | interpolation => exact absurd hdefect hinterpolation
  | regex => exact Or.inr (Or.inl rfl)
  | comment => exact Or.inr (Or.inr rfl)

theorem Defect.id_eq_comment (defect : Defect) :
    defect.code.id = "DCM1005" ↔ defect = .comment := by
  cases defect <;> simp [Defect.code, Code.id]

/-- **Diagnostics are sound, located and in order.** Each covers a text of the source, from one
character to a later one, that shows what is wrong, and has the line and column at which the text
starts. Those found on the way come first, one after the other without overlap, and none but the
last is on a comment that is never closed; those on what is open at the end come after them. -/
theorem diagnostics_sound (o : ScanOptions) (source : String) :
    (∀ d ∈ (strip o source).diagnostics,
      d.span.start < d.span.stop ∧ d.span.stop ≤ source.utf8ByteSize ∧
      (d.severity = .info ↔ d.code.id = "DCM1004") ∧
      ∃ before text after, d.Sound source.toList before text after) ∧
    ∃ found trailing, (strip o source).diagnostics = found ++ trailing ∧
      (∀ d ∈ found, d.code.id = "DCM1001" ∨ d.code.id = "DCM1004" ∨ d.code.id = "DCM1005") ∧
      found.Pairwise (fun d e => d.span.stop ≤ e.span.start) ∧
      found.countP (fun d => d.code.id = "DCM1005") ≤ 1 ∧
      (∀ d ∈ found.dropLast, d.code.id ≠ "DCM1005") ∧
      ∀ d ∈ trailing, d.code.id = "DCM1002" ∨ d.code.id = "DCM1003" := by
  have hnoted := Scan.noted_of_reaches (Scan.reaches_run o { rest := source.toList })
  constructor
  · intro d hd
    obtain ⟨fault, hfault, rfl⟩ := List.mem_map.mp hd
    obtain ⟨before, text, after, hcovers⟩ := Scan.covers_allFaults o source.toList fault hfault
    rw [← byteSize_toList]
    exact ⟨hcovers.start_lt_stop, hcovers.stop_le, Diagnostic.severity_eq_info _,
      before, text, after, hcovers.sound⟩
  · refine ⟨_, _, List.map_append, ?_, ?_, ?_, ?_, ?_⟩
    · intro d hd
      obtain ⟨fault, hfault, rfl⟩ := List.mem_map.mp hd
      exact (Scan.foundOnTheWay_run o source.toList fault (List.mem_reverse.mp hfault)).id
    · rw [List.pairwise_map, List.pairwise_reverse]
      exact hnoted.apart
    · rw [List.countP_map, List.countP_reverse]
      refine Nat.le_trans (List.countP_mono_left ?_) hnoted.countP_comment_le
      intro fault _ hid
      simpa [Diagnostic.code, Fault.locate, Defect.id_eq_comment] using hid
    · intro d hd
      rw [← List.map_dropLast, List.dropLast_reverse] at hd
      obtain ⟨fault, hfault, rfl⟩ := List.mem_map.mp hd
      have hne := hnoted.last fault (List.mem_reverse.mp hfault)
      exact fun hid => hne ((Defect.id_eq_comment _).mp hid)
    · intro d hd
      obtain ⟨fault, hfault, rfl⟩ := List.mem_map.mp hd
      rw [Scan.State.openFaults, List.mem_map] at hfault
      obtain ⟨f, -, rfl⟩ := hfault
      cases f with
      | template start => exact Or.inl rfl
      | interpolation start depth => exact Or.inr rfl

end Uncomment
