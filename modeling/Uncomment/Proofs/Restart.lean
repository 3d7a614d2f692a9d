/-
# Scanning in parts

After a line comment or a directive that ends in a line feed, and with nothing open, a scan is back
where it started: the tracker is as new, and the line feed just written keeps a comment after it
from taking braces before it away. So what follows is scanned as if it stood alone, and only the
offsets differ, by what was read before (`State.resume`). What was read before is scanned as if
nothing followed it, because no lexeme looks past the slash that opens the comment
(`Reaches.facing`), and the comment not past its line feed.

A text that is cut there is stripped part by part. The diagnostics on the second part are those
that it has alone, further down by what the first one holds.

Key definitions: `Scan.Restarts`, `Scan.State.facing`, `Scan.State.resume`, `Diagnostic.shift`.
Key theorems: `Scan.Reaches.facing`, `Scan.run_resume`, `Scan.Restarts.run_append`,
`strip_append_of_restarts`.
-/
import Uncomment.Proofs.Contents
import Uncomment.Proofs.Faults
import Uncomment.Proofs.LineEndings

namespace Uncomment

open Text

/-! ### Further down -/

/-- The span that lies `n` bytes further down. -/
def Span.shift (n : Nat) (s : Span) : Span where
  start := n + s.start
  stop := n + s.stop
  start_le_stop := Nat.add_le_add_left s.start_le_stop n

theorem Span.shift_between (n start stop : Nat) :
    (Span.between start stop).shift n = Span.between (n + start) (n + stop) := by
  simp only [Span.shift, Span.between, Span.mk.injEq, true_and]
  omega

/-- The fault that lies `n` bytes further down. -/
def Fault.shift (n : Nat) (f : Fault) : Fault := { f with span := f.span.shift n }

/-- The diagnostic that lies `n` bytes and some lines further down, at the same column. -/
def Diagnostic.shift (n lines : Nat) (d : Diagnostic) : Diagnostic where
  toFault := d.toFault.shift n
  position := { d.position with line := lines + d.position.line }

/-- A line comment or a directive that ends in a line feed. -/
def Lexeme.endsLine (l : Lexeme) : Bool :=
  (l.isLineComment || l.isDirective) && l.text.getLast? == some '\n'

theorem Lexeme.getLast?_of_endsLine {l : Lexeme} (h : l.endsLine = true) :
    l.text.getLast? = some '\n' := by
  rw [endsLine, Bool.and_eq_true, beq_iff_eq] at h
  exact h.2

namespace Scan

/-- The frame that lies `n` bytes further down. -/
def Frame.shift (n : Nat) : Frame → Frame
  | template start => .template (n + start)
  | interpolation start depth => .interpolation (n + start) depth

theorem Frame.layer_shift (n : Nat) (f : Frame) : (f.shift n).layer = f.layer := by
  cases f <;> rfl

/-! ### What nothing follows -/

/-- A state with another text to read. -/
def State.facing (s : State) (rest : List Char) : State := { s with rest }

theorem absorb_facing (s : State) (l : Lexeme) (rest rest' facing : List Char) :
    absorb (s.facing facing) l rest' = (absorb s l rest).facing rest' := by
  cases l <;> rfl

/-- **Up to a slash, a scan does not see what the slash opens.** -/
theorem Reaches.facing {o : ScanOptions} {back back' : List Char} (hback : back.head? = some '/')
    (hback' : back'.head? = some '/') {s u : State} (h : Reaches o s u) (hu : u.rest = back) :
    ∀ {middle : List Char}, s.rest = middle ++ back →
      Reaches o (s.facing (middle ++ back')) (u.facing back') := by
  induction h with
  | refl s =>
    intro middle hs
    have hmiddle : middle = [] := by simpa [hu] using hs
    rw [hmiddle]
    exact .refl _
  | @step s u c cs hrest hreach ih =>
    intro middle hs
    obtain ⟨l, after, cs', hread, rfl, hcs', hnext⟩ :=
      hreach.swap_step (t := s.facing (middle ++ back')) hback hback' hrest hu hs rfl rfl
    have hstep : Scan.step o s c cs = absorb s l (after ++ back) := by rw [Scan.step, hread]
    rw [hstep] at ih
    have hfacing := ih hu (absorb_rest ..)
    refine .step (s := s.facing _) hcs' ?_
    rwa [Scan.step, hnext, absorb_facing s l (after ++ back)]

/-- A comment or directive that ends its line fits whatever follows. -/
theorem Fits.of_endsLine {r : Reading} {l : Lexeme} {rest : List Char} (h : Fits r l rest)
    (hl : l.endsLine = true) (rest' : List Char) : Fits r l rest' := by
  cases h with
  | directive hplace hdir hline =>
    cases hline with
    | feed line _ hfeed => exact .directive hplace hdir (.feed line rest' hfeed)
    | stop hfeed =>
      exact absurd (List.mem_of_getLast? (Lexeme.getLast?_of_endsLine hl)) hfeed
  | lineComment hplace hbody hend hdir =>
    cases hend with
    | feed _ hret => exact .lineComment hplace hbody (.feed rest' hret) hdir
    | crlf => exact .lineComment hplace hbody (.crlf _ rest') hdir
    | stop =>
      have hmem := List.mem_of_getLast? (Lexeme.getLast?_of_endsLine hl)
      simp [Lexeme.text, hbody] at hmem
  | _ => cases hl

/-! ### What follows a line feed -/

/-- Blanks at the end of what is written are found before a line feed. -/
theorem dropWhile_append_feed {back : List Char} (hback : back.head? = some '\n')
    (out : List Char) :
    (out ++ back).dropWhile isSpaceOrTab = out.dropWhile isSpaceOrTab ++ back := by
  obtain ⟨tail, rfl⟩ := List.head?_eq_some_iff.mp hback
  induction out with
  | nil => rfl
  | cons c out ih =>
    by_cases hc : isSpaceOrTab c = true
    · rw [List.cons_append, List.dropWhile_cons_of_pos hc, List.dropWhile_cons_of_pos hc, ih]
    · rw [List.cons_append, List.dropWhile_cons_of_neg hc, List.dropWhile_cons_of_neg hc,
        List.cons_append]

/-- An opening brace is not looked for past a line feed. -/
theorem followsBrace_append {back : List Char} (hback : back.head? = some '\n')
    (out : List Char) : followsBrace (out ++ back) = followsBrace out := by
  rw [followsBrace, followsBrace, dropWhile_append_feed hback]
  cases out.dropWhile isSpaceOrTab with
  | nil =>
    rw [List.nil_append, hback]
    rfl
  | cons c cs => rfl

/-- What a brace takes away stands after the line feed. -/
theorem dropBrace_append {back : List Char} (hback : back.head? = some '\n') {out : List Char}
    (hout : followsBrace out = true) : dropBrace (out ++ back) = dropBrace out ++ back := by
  rw [followsBrace, beq_iff_eq, List.head?_eq_some_iff] at hout
  obtain ⟨tail, htail⟩ := hout
  rw [dropBrace, dropBrace, dropWhile_append_feed hback, htail, List.cons_append, List.drop_one,
    List.drop_one, List.tail_cons, List.tail_cons, dropWhile_append_feed hback]

/-! ### Going on -/

/-- The state `t` of a scan that started anew where a scan with nothing open had come to `base`. -/
def State.resume (base t : State) : State where
  rest := t.rest
  pos := base.pos + t.pos
  out := t.out ++ base.out
  tracker := t.tracker
  frames := t.frames.map (·.shift base.pos)
  stats := base.stats + t.stats
  faults := t.faults.map (·.shift base.pos) ++ base.faults

theorem reading_resume (base t : State) : (base.resume t).reading = t.reading := by
  simp [State.reading, State.resume, Frame.layer_shift]

theorem countBrace_shift (n : Nat) (c : Char) (frames : List Frame) :
    countBrace c (frames.map (·.shift n)) = (countBrace c frames).map (·.shift n) := by
  match frames with
  | [] => rfl
  | .template start :: frames => rfl
  | .interpolation start depth :: frames =>
    simp only [List.map_cons, Frame.shift, countBrace]
    split_ifs <;> rfl

theorem note_resume (base t : State) (closed : Bool) (defect : Defect) (text : List Char) :
    (base.resume t).note closed defect text =
      (t.note closed defect text).map (·.shift base.pos) ++ base.faults := by
  unfold State.note
  split_ifs
  · rfl
  · simp [State.resume, Fault.shift, Span.shift_between, Nat.add_assoc]

section Resume

variable {base : State} (hbase : base.out.head? = some '\n')

include hbase

/-- What is read next does not depend on what was written before the line feed. -/
theorem next_resume (o : ScanOptions) (t : State) (c : Char) (cs : List Char) :
    next o (base.resume t) c cs = next o t c cs := by
  have hfits : Fits (base.resume t).reading (next keepBraces t c cs).1
      (next keepBraces t c cs).2 := by
    rw [reading_resume]
    exact fits_next t c cs
  have hframes : (base.resume t).frames.isEmpty = t.frames.isEmpty := List.isEmpty_map
  have hout : followsBrace (base.resume t).out = followsBrace t.out :=
    followsBrace_append hbase t.out
  have hjoin : (base.resume t).joinBraces o = t.joinBraces o := by
    funext read
    simp only [State.joinBraces, hframes, hout]
  rw [next_eq_joinBraces o (base.resume t), next_eq_joinBraces o t, hjoin,
    next_of_fits hfits (next_append keepBraces t c cs)]

theorem absorb_resume {t : State} {l : Lexeme}
    (hjsx : ∀ body tail, l = .jsxComment body tail → followsBrace t.out = true)
    (rest : List Char) : absorb (base.resume t) l rest = base.resume (absorb t l rest) := by
  cases l with
  | code c => simp [absorb, State.resume, countBrace_shift, Nat.add_assoc]
  | quoted quote body closed =>
    simp only [absorb, note_resume]
    simp [State.resume, Nat.add_assoc]
  | regex body closed =>
    simp only [absorb, note_resume]
    simp [State.resume, Nat.add_assoc]
  | blockComment body closed =>
    simp only [absorb, note_resume]
    simp [State.resume, Stats.add_def, Nat.add_assoc]
  | jsxComment body tail =>
    have hdrop := dropBrace_append hbase (hjsx body tail rfl)
    simp [absorb, State.resume, hdrop, Stats.add_def, Nat.add_assoc]
  | _ => simp [absorb, State.resume, Frame.shift, Stats.add_def, Nat.add_assoc]

theorem step_resume (o : ScanOptions) (t : State) (c : Char) (cs : List Char) :
    step o (base.resume t) c cs = base.resume (step o t c cs) := by
  rw [step, step, next_resume hbase]
  refine absorb_resume hbase ?_ _
  intro body tail hjsx
  rcases next_cases o t c cs with hsame | ⟨-, -, -, -, -, hbrace, -⟩
  · have hfits := fits_next t c cs
    rw [← hsame, hjsx] at hfits
    cases hfits
  · exact hbrace

/-- **A scan that goes on after a line feed does what it does anew**, only further down. -/
theorem run_resume (o : ScanOptions) (t : State) :
    run o (base.resume t) = base.resume (run o t) := by
  induction t using scan_induction o with
  | hnil t ht => rw [run_nil o ht, run_nil o (s := base.resume t) ht]
  | hcons t c cs ht ih =>
    rw [run_cons o ht, run_cons o (s := base.resume t) ht, step_resume hbase, ih]

end Resume

/-- The faults of both parts, those of the second one further down. -/
theorem allFaults_resume (base t : State) :
    (base.resume t).allFaults = base.faults.reverse ++ t.allFaults.map (·.shift base.pos) := by
  have hopen : (base.resume t).openFaults = t.openFaults.map (·.shift base.pos) := by
    simp only [State.openFaults, State.resume, ← List.map_reverse, List.map_map]
    refine List.map_congr_left fun f _ => ?_
    cases f <;> simp [Frame.shift, Frame.defect, Frame.start, Fault.shift, Span.shift_between]
  have hfaults : (base.resume t).faults = t.faults.map (·.shift base.pos) ++ base.faults := rfl
  rw [State.allFaults, hopen, hfaults, State.allFaults, List.reverse_append, List.map_append,
    List.map_reverse, List.append_assoc]

/-! ### The cut -/

/-- Whether the scan of `a ++ b` comes to the end of `a` with nothing open, just after a line
comment or a directive and its line feed. -/
def Restarts (o : ScanOptions) (a b : String) : Prop :=
  ∃ s c cs, Reaches o { rest := (a ++ b).toList } s ∧ s.rest = c :: cs ∧
    (next o s c cs).1.endsLine = true ∧ (step o s c cs).pos = a.utf8ByteSize ∧
    (step o s c cs).frames = []

section EndsLine

variable {s : State} {l : Lexeme} {rest : List Char}

theorem Fits.head_of_endsLine (hfits : Fits s.reading l rest) (hl : l.endsLine = true) :
    l.text.head? = some '/' := by
  cases hfits with
  | directive _ hdir _ =>
    obtain ⟨tail, htail⟩ := slashes_of_isDirective hdir
    rw [Lexeme.text, ← htail]
    rfl
  | lineComment => rfl
  | _ => cases hl

/-- A comment or directive that ends its line leaves the line feed, and a tracker as new. -/
theorem absorb_endsLine (hfits : Fits s.reading l rest) (hl : l.endsLine = true) :
    (absorb s l rest).out.head? = some '\n' ∧ (absorb s l rest).tracker = {} := by
  -- it fits before any text, and so it does not end with the source
  cases hfits.of_endsLine hl ['\n'] with
  | directive _ _ hline =>
    cases hline with
    | feed line => simp [absorb, Lexeme.text, Tracker.resetTo]
  | lineComment _ _ hend _ =>
    cases hend with
    | feed => exact ⟨rfl, rfl⟩
    | crlf => exact ⟨rfl, rfl⟩
  | _ => cases hl

/-- A comment or directive that ends its line is also read if nothing follows it. -/
theorem next_endsLine (o : ScanOptions) (hfits : Fits s.reading l rest) (hl : l.endsLine = true)
    {c : Char} {cs : List Char} (htext : l.text = c :: cs) : next o s c cs = (l, []) := by
  have halone : l.text ++ [] = c :: cs := by rw [List.append_nil, htext]
  have hopen : ∀ body, l ≠ .blockComment body true := by
    rintro body rfl
    cases hl
  rw [next_eq_joinBraces, next_of_fits (hfits.of_endsLine hl []) halone,
    joinBraces_of_ne o s hopen]

end EndsLine

/-- A state with nothing open and a tracker as new is where a scan starts anew. -/
theorem resume_start {s : State} (htracker : s.tracker = {}) (hframes : s.frames = [])
    (rest : List Char) : (s.facing rest).resume { rest := s.rest } = s := by
  obtain ⟨_, _, _, _, _, _, _⟩ := s
  simp only at htracker hframes
  subst htracker hframes
  rfl

/-- Where a scan restarts, the first part ends with a comment or directive that is read alike before
the second part and at the end. -/
theorem Restarts.exists_last {o : ScanOptions} {a b : String} (h : Restarts o a b) :
    ∃ s l, l.endsLine = true ∧ l.text <:+ a.toList ∧ Fits s.reading l b.toList ∧
      (absorb s l b.toList).frames = [] ∧ Reaches o { rest := a.toList } (s.facing l.text) ∧
      run o { rest := (a ++ b).toList } = run o (absorb s l b.toList) := by
  obtain ⟨s, c, cs, hreach, hrest, hl, hpos, hframes⟩ := h
  have hfits : Fits s.reading (next o s c cs).1 (next o s c cs).2 := by
    rcases fits_or_jsx o s c cs with hfits | ⟨-, body, tail, hjsx⟩
    · exact hfits
    · rw [hjsx] at hl
      cases hl
  have hslash := hfits.head_of_endsLine hl
  obtain ⟨front, hreads⟩ := hreach.reads
  have hsize := hpos.trans (byteSize_toList a).symm
  obtain ⟨hfront, hback⟩ := (hreads.step (o := o) hrest).eq String.toList_append hsize
  rw [step, absorb_rest] at hback
  rw [step, hback] at hframes
  refine ⟨s, (next o s c cs).1, hl, ⟨front, hfront⟩, hback ▸ hfits, hframes, ?_, ?_⟩
  · have hhead : s.rest.head? = some '/' := by
      rw [hrest, ← next_append o s c cs, List.head?_append, hslash]
      rfl
    rw [← hfront]
    exact hreach.facing hhead hslash rfl hreads.source_eq
  · rw [hreach.run_eq, run_cons o hrest, step, hback]

/-- **Where a scan restarts**, the first part alone comes to the same state, and the whole goes on
from there with the second part. -/
theorem Restarts.run_append {o : ScanOptions} {a b : String} (h : Restarts o a b) :
    (run o { rest := a.toList }).frames = [] ∧
      run o { rest := (a ++ b).toList } =
        (run o { rest := a.toList }).resume (run o { rest := b.toList }) := by
  obtain ⟨s, l, hl, -, hfits, hframes, hreach, hrun⟩ := h.exists_last
  obtain ⟨cs, hcs⟩ := List.head?_eq_some_iff.mp (hfits.head_of_endsLine hl)
  obtain ⟨hout, htracker⟩ := absorb_endsLine hfits hl
  have hfirst : run o { rest := a.toList } = (absorb s l b.toList).facing [] := by
    rw [hreach.run_eq, run_cons o (s := s.facing l.text) hcs, step,
      next_endsLine (s := s.facing l.text) o hfits hl hcs, absorb_facing s l b.toList]
    exact run_nil o rfl
  have hstart := resume_start htracker hframes []
  rw [absorb_rest] at hstart
  have hresume := @run_resume ((absorb s l b.toList).facing []) hout o { rest := b.toList }
  rw [hstart] at hresume
  rw [hrun, hfirst]
  exact ⟨hframes, hresume⟩

/-- Where a scan restarts, a line has ended. -/
theorem Restarts.getLast? {o : ScanOptions} {a b : String} (h : Restarts o a b) :
    a.toList.getLast? = some '\n' := by
  obtain ⟨s, l, hl, ⟨front, hfront⟩, -⟩ := h.exists_last
  rw [← hfront, List.getLast?_append, Lexeme.getLast?_of_endsLine hl]
  rfl

end Scan

/-! ### Stripping in parts -/

/-- What stands on the last line does not depend on the lines before it. -/
theorem rtakeWhile_append_feed {a : List Char} (ha : a.getLast? = some '\n') (before : List Char) :
    (a ++ before).rtakeWhile (· ≠ '\n') = before.rtakeWhile (· ≠ '\n') := by
  obtain ⟨front, rfl⟩ := List.getLast?_eq_some_iff.mp ha
  induction before using List.reverseRecOn with
  | nil => simp
  | append_singleton before c ih =>
    rw [← List.append_assoc]
    by_cases hc : c = '\n'
    · rw [List.rtakeWhile_concat_neg _ _ _ (by simpa using hc),
        List.rtakeWhile_concat_neg _ _ _ (by simpa using hc)]
    · rw [List.rtakeWhile_concat_pos _ _ _ (by simpa using hc),
        List.rtakeWhile_concat_pos _ _ _ (by simpa using hc), ih]

section Parts

variable {a b before text after : List Char} {fault : Fault}

/-- A fault of the first part is located where it is in the first part alone. -/
theorem Fault.Covers.locate_append (h : fault.Covers a before text after) (b : List Char) :
    fault.locate (LineIndex.ofChars (a ++ b)) = fault.locate (LineIndex.ofChars a) := by
  have hwhole : a ++ b = before ++ (text ++ after ++ b) := by simp [h.source_eq]
  have hposition := LineIndex.position_eq before (text ++ after ++ b)
  rw [Fault.locate, Fault.locate, h.position_eq, h.start_eq, hwhole, hposition]

/-- A fault of the second part is located as many lines down as the first part has, and at the same
column. -/
theorem Fault.Covers.locate_shift (h : fault.Covers b before text after)
    (ha : a.getLast? = some '\n') :
    (fault.shift (byteSize a)).locate (LineIndex.ofChars (a ++ b)) =
      (fault.locate (LineIndex.ofChars b)).shift (byteSize a) (a.count '\n') := by
  have hwhole : a ++ b = a ++ before ++ (text ++ after) := by simp [h.source_eq]
  have hstart : (fault.shift (byteSize a)).span.start = byteSize (a ++ before) := by
    rw [byteSize_append, ← h.start_eq]
    rfl
  have hposition := LineIndex.position_eq (a ++ before) (text ++ after)
  rw [rtakeWhile_append_feed ha, List.count_append] at hposition
  rw [Fault.locate, Diagnostic.shift, Fault.locate, h.position_eq, hstart, hwhole, hposition]
  simp only [Diagnostic.mk.injEq, Position.mk.injEq, true_and, and_true]
  omega

end Parts

/-- **Scanning restarts after a line comment or directive.** A text that is cut there is stripped
part by part: the texts follow one another, the counts add up, and the diagnostics on the second
part are those that it has alone, further down by the bytes and lines of the first. -/
theorem strip_append_of_restarts {o : ScanOptions} {a b : String} (h : Scan.Restarts o a b) :
    (strip o (a ++ b)).text = (strip o a).text ++ (strip o b).text ∧
    (strip o (a ++ b)).stats = (strip o a).stats + (strip o b).stats ∧
    (strip o (a ++ b)).diagnostics = (strip o a).diagnostics ++
      (strip o b).diagnostics.map (·.shift a.utf8ByteSize (a.toList.count '\n')) := by
  obtain ⟨hframes, hrun⟩ := h.run_append
  have hlast := h.getLast?
  have hopen : (Scan.run o { rest := a.toList }).allFaults =
      (Scan.run o { rest := a.toList }).faults.reverse := by
    simp [Scan.State.allFaults, Scan.State.openFaults, hframes]
  refine ⟨?_, ?_, ?_⟩
  · have hout := congrArg Scan.State.out hrun
    simp only [strip, hout, Scan.State.resume, List.reverse_append, String.ofList_append]
  · exact congrArg Scan.State.stats hrun
  · have hfirst := Scan.covers_allFaults o a.toList
    have hsecond := Scan.covers_allFaults o b.toList
    simp only [strip]
    rw [hrun, Scan.allFaults_resume, ← hopen, Scan.pos_run, List.map_append, String.toList_append,
      ← byteSize_toList, List.map_map, List.map_map]
    congr 1
    · refine List.map_congr_left fun fault hfault => ?_
      obtain ⟨before, text, after, hcovers⟩ := hfirst fault hfault
      exact hcovers.locate_append b.toList
    · refine List.map_congr_left fun fault hfault => ?_
      obtain ⟨before, text, after, hcovers⟩ := hsecond fault hfault
      exact hcovers.locate_shift hlast

/-- A string is left open in the first part, a regular expression and a template in the second, and
a brace before the cut does not go with a comment after it. -/
theorem strip_append_of_restarts_brace :
    let a := "'é\n\x7b//\n"
    let b := "/**/\x7d/d\n`"
    Scan.Restarts {} a b ∧
    (strip {} (a ++ b)).text = "'é\n\x7b\n" ++ "\x7d/d\n`" ∧
    (strip {} (a ++ b)).stats = ⟨1, 0, 0, 0⟩ + ⟨0, 1, 0, 0⟩ ∧
    (strip {} (a ++ b)).diagnostics = (strip {} a).diagnostics ++
      (strip {} b).diagnostics.map (·.shift 8 2) ∧
    (strip {} (a ++ b)).diagnostics.map (·.position) = [⟨1, 1⟩, ⟨3, 6⟩, ⟨4, 1⟩] := by
  intro a b
  have hsource : (a ++ b).toList = ['\'', 'é', '\n', '{', '/', '/', '\n', '/', '*', '*', '/', '}',
      '/', 'd', '\n', backtick] := by decide
  have hcut : Scan.Restarts {} a b := by
    rw [Scan.Restarts, hsource]
    exact ⟨_, _, _, .step rfl (.step rfl (.refl _)), rfl, by decide, by decide, by decide⟩
  have hsize : a.utf8ByteSize = 8 ∧ a.toList.count '\n' = 2 := by decide
  obtain ⟨htext, hstats, hdiagnostics⟩ := strip_append_of_restarts hcut
  rw [hsize.1, hsize.2] at hdiagnostics
  refine ⟨hcut, htext.trans ?_, hstats.trans ?_, hdiagnostics, ?_⟩
  · decide +kernel
  · decide +kernel
  · decide +kernel

end Uncomment
