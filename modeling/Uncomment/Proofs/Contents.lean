/-
# What a comment says does not matter

Two sources that differ only inside one comment are stripped alike. Their scans run in parallel:
up to the comment they read the same lexemes, because nothing before a slash depends on what the
slash opens; then each reads its own comment, which leaves the same behind; and after it what is
left to read is the same. All that differs is the offsets, and an offset after the comment is on
the same line in both sources as long as the comments hold equally many line feeds (`Parallel`).

Key definitions: `Lexeme.Similar`, `Scan.Parallel`, `Stripped.Agrees`.
Key theorems: `Scan.Parallel.absorb`, `Scan.Parallel.upTo`, `Scan.Parallel.run`,
`strip_comment_contents`.
-/
import Mathlib.Data.List.Forall2
import Uncomment.Proofs.Lookahead
import Uncomment.Proofs.Positions
import Uncomment.Proofs.Reach

namespace Uncomment

open Text

/-! ### Lexemes that leave the same -/

namespace Lexeme

/-- A block comment, with or without braces. -/
def isBlockComment : Lexeme → Bool
  | blockComment _ _ => true
  | jsxComment _ _ => true
  | _ => false

/-- A line comment. -/
def isLineComment : Lexeme → Bool
  | lineComment _ _ => true
  | _ => false

/-- A directive. -/
def isDirective : Lexeme → Bool
  | directive _ => true
  | _ => false

/-- Whether two lexemes are the same but for what is said in a comment. -/
inductive Similar : Lexeme → Lexeme → Prop where
  | refl (l : Lexeme) : Similar l l
  | lineComment {body body' : List Char} (ending : List Char) :
      '\n' ∉ body → '\n' ∉ body' → Similar (.lineComment body ending) (.lineComment body' ending)
  | blockComment {body body' : List Char} :
      body.count '\n' = body'.count '\n' →
      Similar (.blockComment body true) (.blockComment body' true)
  | jsxComment {body body' : List Char} (tail : List Char) :
      body.count '\n' = body'.count '\n' → Similar (.jsxComment body tail) (.jsxComment body' tail)

/-- Similar lexemes hold equally many line feeds. -/
theorem Similar.count_text {l l' : Lexeme} (h : Similar l l') :
    l.text.count '\n' = l'.text.count '\n' := by
  cases h with
  | refl => rfl
  | lineComment ending hbody hbody' =>
    simp [text, List.count_eq_zero.mpr hbody, List.count_eq_zero.mpr hbody']
  | blockComment hcount => simp [text, hcount]
  | jsxComment tail hcount => simp [text, hcount]

end Lexeme

open Lexeme (Similar)

namespace Scan

/-! ### Scans in parallel -/

/-- Whether an offset in one source and one in another are on lines of the same number. -/
def SameLine (source source' : List Char) (offset offset' : Nat) : Prop :=
  ((LineIndex.ofChars source).position offset).line =
    ((LineIndex.ofChars source').position offset').line

/-- Whether two frames are of one kind and depth and start on lines of the same number. -/
structure Frame.Alike (source source' : List Char) (f g : Frame) : Prop where
  layer : f.layer = g.layer
  line : SameLine source source' f.start g.start

/-- Whether two faults are of one kind and start on lines of the same number. -/
structure FaultAlike (source source' : List Char) (f g : Fault) : Prop where
  defect : f.defect = g.defect
  line : SameLine source source' f.span.start g.span.start

/-- Whether a scan of one source that has read `front` and a scan of another that has read
`front'` agree on everything but offsets. -/
structure Parallel (source source' front front' : List Char) (s t : State) : Prop where
  reads : Reads source s front
  reads' : Reads source' t front'
  count : front.count '\n' = front'.count '\n'
  out : s.out = t.out
  tracker : s.tracker = t.tracker
  stats : s.stats = t.stats
  frames : List.Forall₂ (Frame.Alike source source') s.frames t.frames
  faults : List.Forall₂ (FaultAlike source source') s.faults t.faults

theorem parallel_start (source source' : List Char) :
    Parallel source source' [] [] { rest := source } { rest := source' } where
  reads := reads_start source
  reads' := reads_start source'
  count := rfl
  out := rfl
  tracker := rfl
  stats := rfl
  frames := .nil
  faults := .nil

/-- A lexeme that is read on the way to a slash is read alike if something else follows there. -/
theorem Reaches.swap_step {o : ScanOptions} {s t u : State} {c : Char}
    {cs middle back back' : List Char} (hreach : Reaches o (Scan.step o s c cs) u)
    (hback : back.head? = some '/') (hback' : back'.head? = some '/') (hrest : s.rest = c :: cs)
    (hu : u.rest = back) (hs : s.rest = middle ++ back) (hreading : s.reading = t.reading)
    (hout : s.out = t.out) :
    ∃ l after cs', next o s c cs = (l, after ++ back) ∧ middle = l.text ++ after ∧
      middle ++ back' = c :: cs' ∧ next o t c cs' = (l, after ++ back') := by
  obtain ⟨after, hafter⟩ : back <:+ (next o s c cs).2 := by
    have hsuffix := hreach.suffix
    rwa [hu, Scan.step, absorb_rest] at hsuffix
  have hne := next_text_ne o s c cs
  have hwhole := next_append o s c cs
  have hread : next o s c cs = ((next o s c cs).1, after ++ back) := by rw [hafter]
  generalize (next o s c cs).1 = l at hne hwhole hread
  rw [← hafter] at hwhole
  -- the lexeme is cut off the part before the slash
  have hmiddle : middle = l.text ++ after := by
    rw [← hrest, hs, ← List.append_assoc] at hwhole
    exact (List.append_cancel_right hwhole).symm
  obtain ⟨d, ds, hds⟩ := List.exists_cons_of_ne_nil hne
  obtain rfl : d = c := by
    rw [hds] at hwhole
    exact (List.cons.inj hwhole).1
  have htext : l.text ++ (after ++ back') = d :: (ds ++ (after ++ back')) := by
    rw [hds, List.cons_append]
  refine ⟨l, after, _, hread, hmiddle, ?_, next_swap hreading hout hback hback' hread htext⟩
  rw [hmiddle, List.append_assoc, htext]

theorem Reads.line {source front : List Char} {s : State} (h : Reads source s front) :
    ((LineIndex.ofChars source).position s.pos).line = 1 + front.count '\n' := by
  rw [h.source_eq, h.pos_eq, LineIndex.line_position]

namespace Parallel

variable {source source' front front' : List Char} {s t : State}

theorem sameLine (h : Parallel source source' front front' s t) :
    SameLine source source' s.pos t.pos := by
  rw [SameLine, h.reads.line, h.reads'.line, h.count]

theorem reading (h : Parallel source source' front front' s t) : s.reading = t.reading := by
  have hlayers : ∀ {fs gs : List Frame}, List.Forall₂ (Frame.Alike source source') fs gs →
      fs.map Frame.layer = gs.map Frame.layer := by
    intro fs gs hall
    induction hall with
    | nil => rfl
    | cons hfg _ ih => rw [List.map_cons, List.map_cons, hfg.layer, ih]
  rw [State.reading, State.reading, hlayers h.frames, h.tracker]

/-- Counting a brace keeps frames alike. -/
theorem countBrace {fs gs : List Frame} (h : List.Forall₂ (Frame.Alike source source') fs gs)
    (c : Char) :
    List.Forall₂ (Frame.Alike source source') (countBrace c fs) (countBrace c gs) := by
  cases h with
  | nil => exact .nil
  | @cons f g fs gs hfg hrest =>
    obtain ⟨hlayer, hline⟩ := hfg
    cases f with
    | template start =>
      cases g with
      | template start' => exact .cons ⟨hlayer, hline⟩ hrest
      | interpolation _ _ => simp [Frame.layer] at hlayer
    | interpolation start depth =>
      cases g with
      | template start' => simp [Frame.layer] at hlayer
      | interpolation start' depth' =>
        obtain rfl : depth = depth' := by simpa [Frame.layer] using hlayer
        simp only [Scan.countBrace]
        split_ifs
        · exact .cons ⟨rfl, hline⟩ hrest
        · exact hrest
        · exact .cons ⟨rfl, hline⟩ hrest
        · exact .cons ⟨rfl, hline⟩ hrest

/-- Notes of the same defect at the present place keep faults alike. -/
theorem note (h : Parallel source source' front front' s t) (closed : Bool) (defect : Defect)
    (text text' : List Char) :
    List.Forall₂ (FaultAlike source source') (s.note closed defect text)
      (t.note closed defect text') := by
  unfold State.note
  split_ifs
  · exact h.faults
  · exact .cons ⟨rfl, h.sameLine⟩ h.faults

theorem frames_absorb (h : Parallel source source' front front' s t) {l l' : Lexeme}
    (hl : Similar l l') (rest rest' : List Char) :
    List.Forall₂ (Frame.Alike source source') (Scan.absorb s l rest).frames
      (Scan.absorb t l' rest').frames := by
  cases hl with
  | refl =>
    cases l with
    | code c => exact countBrace h.frames c
    | openTemplate => exact .cons ⟨rfl, h.sameLine⟩ h.frames
    | openInterpolation => exact .cons ⟨rfl, h.sameLine⟩ h.frames
    | closeTemplate => simpa [Scan.absorb] using List.forall₂_drop 1 h.frames
    | _ => exact h.frames
  | _ => exact h.frames

theorem faults_absorb (h : Parallel source source' front front' s t) {l l' : Lexeme}
    (hl : Similar l l') (rest rest' : List Char) :
    List.Forall₂ (FaultAlike source source') (Scan.absorb s l rest).faults
      (Scan.absorb t l' rest').faults := by
  cases hl with
  | refl =>
    cases l with
    | quoted quote body closed => exact h.note closed _ _ _
    | regex body closed => exact h.note closed _ _ _
    | blockComment body closed => exact h.note closed _ _ _
    | _ => exact h.faults
  | _ => exact h.faults

/-- **One lexeme read by each.** -/
theorem absorb (h : Parallel source source' front front' s t) {l l' : Lexeme} (hl : Similar l l')
    {rest rest' : List Char} (hrest : s.rest = l.text ++ rest)
    (hrest' : t.rest = l'.text ++ rest') :
    Parallel source source' (front ++ l.text) (front' ++ l'.text) (Scan.absorb s l rest)
      (Scan.absorb t l' rest') where
  reads := h.reads.absorb hrest
  reads' := h.reads'.absorb hrest'
  count := by rw [List.count_append, List.count_append, h.count, hl.count_text]
  out := by
    cases hl with
    | refl => cases l <;> simp only [Scan.absorb, h.out]
    | lineComment => simp only [Scan.absorb, h.out]
    | blockComment hcount => simp only [Scan.absorb, h.out, feeds_eq, hcount]
    | jsxComment _ hcount => simp only [Scan.absorb, h.out, feeds_eq, hcount]
  tracker := by
    cases hl with
    | refl => cases l <;> simp only [Scan.absorb, h.tracker]
    | _ => simp only [Scan.absorb, h.tracker]
  stats := by
    cases hl with
    | refl => rw [stats_absorb, stats_absorb, h.stats]
    | _ => simp only [Scan.absorb, h.stats]
  frames := h.frames_absorb hl rest rest'
  faults := h.faults_absorb hl rest rest'

/-- **Up to a slash, both scans read the same lexemes**, whatever the slash opens. -/
theorem upTo {o : ScanOptions} {back back' : List Char} (hback : back.head? = some '/')
    (hback' : back'.head? = some '/') {u : State} (hreach : Reaches o s u) (hu : u.rest = back) :
    ∀ {t : State} {front middle : List Char}, Parallel source source' front front s t →
      s.rest = middle ++ back → t.rest = middle ++ back' →
      ∃ u' front', Reaches o t u' ∧ Parallel source source' front' front' u u' ∧
        u'.rest = back' := by
  induction hreach with
  | refl s =>
    intro t front middle h hs ht
    have hmiddle : middle = [] := by simpa [hu] using hs
    subst hmiddle
    exact ⟨t, front, .refl t, h, ht⟩
  | @step s u c cs hrest hreach ih =>
    intro t front middle h hs ht
    obtain ⟨l, after, cs', hread, rfl, hcs', hnext⟩ :=
      hreach.swap_step hback hback' hrest hu hs h.reading h.out
    have hstep : step o s c cs = Scan.absorb s l (after ++ back) := by rw [step, hread]
    have hnow := h.absorb (.refl l) (hs.trans (List.append_assoc ..))
      (ht.trans (List.append_assoc ..))
    rw [hstep] at ih
    obtain ⟨u', front', hreach', hpar, hu'⟩ := ih hu hnow (absorb_rest ..) (absorb_rest ..)
    refine ⟨u', front', .step (ht.trans hcs') ?_, hpar, hu'⟩
    rwa [step, hnext]

/-- Scans that have the same left to read stay in parallel to their ends. -/
theorem run {o : ScanOptions} (h : Parallel source source' front front' s t)
    (hrest : s.rest = t.rest) :
    ∃ last last', Parallel source source' last last' (run o s) (run o t) := by
  induction s using scan_induction o generalizing t front front' with
  | hnil s hs =>
    rw [run_nil o hs, run_nil o (hrest.symm.trans hs)]
    exact ⟨front, front', h⟩
  | hcons s c cs hs ih =>
    have ht : t.rest = c :: cs := hrest.symm.trans hs
    have hnext := next_congr_reading o h.reading h.out c cs
    have hwhole := next_append o s c cs
    have hnow := h.absorb (.refl _) (hs.trans hwhole.symm) (ht.trans hwhole.symm)
    rw [run_cons o hs, run_cons o ht, step, step, ← hnext]
    exact ih hnow (by rw [step, absorb_rest, absorb_rest])

/-- Scans that read similar lexemes before the same text are in parallel at their ends. -/
theorem run_of_similar {o : ScanOptions} (h : Parallel source source' front front' s t)
    {c c' : Char} {cs cs' rest : List Char} {l l' : Lexeme} (hl : Similar l l')
    (hs : s.rest = c :: cs) (ht : t.rest = c' :: cs') (hnext : next o s c cs = (l, rest))
    (hnext' : next o t c' cs' = (l', rest)) :
    ∃ last last', Parallel source source' last last' (Scan.run o s) (Scan.run o t) := by
  have hwhole := next_append o s c cs
  have hwhole' := next_append o t c' cs'
  rw [hnext] at hwhole
  rw [hnext'] at hwhole'
  rw [run_cons o hs, run_cons o ht, step, step, hnext, hnext']
  refine (h.absorb hl (hs.trans hwhole.symm) (ht.trans hwhole'.symm)).run ?_
  rw [absorb_rest, absorb_rest]

theorem allFaults (h : Parallel source source' front front' s t) :
    List.Forall₂ (FaultAlike source source') s.allFaults t.allFaults := by
  have hopen : List.Forall₂ (FaultAlike source source') s.openFaults t.openFaults := by
    rw [State.openFaults, State.openFaults, List.forall₂_map_left_iff, List.forall₂_map_right_iff,
      List.forall₂_reverse_iff]
    refine h.frames.imp ?_
    rintro (start | ⟨start, depth⟩) (start' | ⟨start', depth'⟩) ⟨hlayer, hline⟩
    · exact ⟨rfl, hline⟩
    · simp [Frame.layer] at hlayer
    · simp [Frame.layer] at hlayer
    · exact ⟨rfl, hline⟩
  exact List.rel_append (List.forall₂_reverse_iff.mpr h.faults) hopen

end Parallel

/-! ### A comment -/

/-- A closed comment in code is read up to its delimiter, and then braces are joined to it. -/
theorem next_blockComment (o : ScanOptions) {s : State} (hplace : s.reading.place ≠ .template)
    {body : List Char} (hbody : ¬ ['*', '/'] <:+: body) (rest : List Char) :
    next o s '/' ('*' :: (body ++ ['*', '/'] ++ rest)) =
      s.joinBraces o (.blockComment (body ++ ['*', '/']) true, rest) := by
  have hfits : Fits s.reading (.blockComment (body ++ ['*', '/']) true) rest :=
    .blockComment hplace (.delimited hbody rest)
  have hread : next keepBraces s '/' ('*' :: (body ++ ['*', '/'] ++ rest)) =
      (.blockComment (body ++ ['*', '/']) true, rest) := next_of_fits hfits rfl
  rw [next_eq_joinBraces, hread]

/-- Braces are joined to similar comments alike. -/
theorem joinBraces_similar (o : ScanOptions) (s : State) {body body' : List Char}
    (hcount : body.count '\n' = body'.count '\n') (rest : List Char) :
    ∃ l l' rest', s.joinBraces o (.blockComment body true, rest) = (l, rest') ∧
      s.joinBraces o (.blockComment body' true, rest) = (l', rest') ∧ Similar l l' ∧
      l'.isBlockComment = true := by
  simp only [State.joinBraces]
  split_ifs
  · exact ⟨_, _, _, rfl, rfl, .jsxComment _ hcount, rfl⟩
  · exact ⟨_, _, _, rfl, rfl, .blockComment hcount, rfl⟩

/-- Comments are read in code only. -/
theorem place_of_comment {o : ScanOptions} {s : State} {c : Char} {cs : List Char}
    (h : (next o s c cs).1.isBlockComment = true ∨ (next o s c cs).1.isLineComment = true) :
    s.reading.place ≠ .template := by
  intro htemplate
  rw [next_eq_nextTemplate htemplate, nextTemplate] at h
  split_ifs at h <;> simp [cut, Lexeme.isBlockComment, Lexeme.isLineComment] at h

/-- Two slashes in code open a directive at top level, or a line comment. -/
theorem next_lineComment (o : ScanOptions) {s : State} (hplace : s.reading.place ≠ .template)
    {body ending rest : List Char} (hbody : '\n' ∉ body) (hend : LineEnd body ending rest) :
    (next o s '/' ('/' :: (body ++ ending ++ rest))).1.isDirective = true ∨
      next o s '/' ('/' :: (body ++ ending ++ rest)) = (.lineComment body ending, rest) := by
  by_cases hdir : s.reading.place = .topLevel ∧
      isDirective (Lexeme.lineComment body ending).text = true
  · left
    obtain ⟨htop, hdir⟩ := hdir
    rw [← isDirective_of_lineEnd hend] at hdir
    obtain ⟨line, rest', hcs, hline, -⟩ :=
      lineExtent_spec 0 ('/' :: '/' :: (body ++ ending ++ rest))
    have hfits : Fits s.reading (.directive line) rest' := by
      refine .directive htop ?_ hline
      rw [← isDirective_of_fullLine hline, ← hcs]
      exact hdir
    rw [next_eq_joinBraces, next_of_fits hfits hcs.symm]
    rfl
  · right
    have hfits : Fits s.reading (.lineComment body ending) rest := by
      refine .lineComment hplace hbody hend (fun htop => ?_)
      simpa [htop] using hdir
    have hread : next keepBraces s '/' ('/' :: (body ++ ending ++ rest)) =
        (.lineComment body ending, rest) := next_of_fits hfits rfl
    rw [next_eq_joinBraces, hread]
    rfl

end Scan

/-! ### Stripped texts -/

/-- Whether two diagnostics say the same about lines of the same number. -/
structure Diagnostic.Agrees (d e : Diagnostic) : Prop where
  id : d.code.id = e.code.id
  severity : d.severity = e.severity
  message : d.defect.message = e.defect.message
  line : d.position.line = e.position.line

/-- Whether two results have the same text and the same counts, and diagnostics that agree one by
one. -/
structure Stripped.Agrees (a b : Stripped) : Prop where
  text : a.text = b.text
  stats : a.stats = b.stats
  diagnostics : List.Forall₂ Diagnostic.Agrees a.diagnostics b.diagnostics

namespace Scan

/-- Scans that are in parallel at their ends give results that agree. -/
theorem Parallel.agrees {o : ScanOptions} {source source' : String} {front front' : List Char}
    (h : Parallel source.toList source'.toList front front' (Scan.run o { rest := source.toList })
      (Scan.run o { rest := source'.toList })) :
    (strip o source).Agrees (strip o source') where
  text := by simp only [strip, h.out]
  stats := h.stats
  diagnostics := by
    simp only [strip]
    rw [List.forall₂_map_left_iff, List.forall₂_map_right_iff]
    refine h.allFaults.imp ?_
    intro f g hfg
    have hdefect := hfg.defect
    exact ⟨congrArg (·.code.id) hdefect, congrArg (·.code.severity) hdefect,
      congrArg Defect.message hdefect, hfg.line⟩

/-- **Two sources that differ in a comment.** If the scan of one comes to the slash that opens
the comment, so does the scan of the other; and if the lexemes that are read there are similar
and leave the same text, the results agree. -/
theorem agrees_of_similar {o : ScanOptions} {source source' : String}
    {front cs cs' : List Char} (hsource : source.toList = front ++ '/' :: cs)
    (hsource' : source'.toList = front ++ '/' :: cs') {s : State}
    (hreach : Reaches o { rest := source.toList } s) (hpos : s.pos = byteSize front) :
    ∃ t, s.rest = '/' :: cs ∧ Reaches o { rest := source'.toList } t ∧ t.pos = byteSize front ∧
      t.rest = '/' :: cs' ∧ s.reading = t.reading ∧ s.out = t.out ∧
      ∀ l l' rest, Similar l l' → next o s '/' cs = (l, rest) → next o t '/' cs' = (l', rest) →
        (strip o source).Agrees (strip o source') := by
  obtain ⟨read, hreads⟩ := hreach.reads
  obtain ⟨rfl, hs⟩ := hreads.eq hsource hpos
  have hopen (cs : List Char) : ('/' :: cs).head? = some '/' := rfl
  obtain ⟨t, front', hreach', hpar, ht⟩ := (parallel_start source.toList source'.toList).upTo
    (hopen cs) (hopen cs') hreach hs hsource hsource'
  refine ⟨t, hs, hreach', ?_, ht, hpar.reading, hpar.out, ?_⟩
  · rw [hpar.reads'.pos_eq, ← hpar.reads.pos_eq, hpos]
  · intro l l' rest hl hnext hnext'
    obtain ⟨last, last', hend⟩ := hpar.run_of_similar hl hs ht hnext hnext'
    rw [← hreach.run_eq, ← hreach'.run_eq] at hend
    exact hend.agrees

/-- A comment that two sources say differently between the same delimiters. -/
theorem agrees_of_blockComment {o : ScanOptions} {source source' : String}
    {front body body' rest : List Char}
    (hsource : source.toList = front ++ '/' :: '*' :: (body ++ ['*', '/'] ++ rest))
    (hsource' : source'.toList = front ++ '/' :: '*' :: (body' ++ ['*', '/'] ++ rest))
    (hbody : ¬ ['*', '/'] <:+: body) (hbody' : ¬ ['*', '/'] <:+: body')
    (hcount : body.count '\n' = body'.count '\n')
    (hstarts : Starts o source Lexeme.isBlockComment (byteSize front)) :
    Starts o source' Lexeme.isBlockComment (byteSize front) ∧
      (strip o source).Agrees (strip o source') := by
  obtain ⟨s, c, cs, hreach, hpos, hrest, hkind⟩ := hstarts
  obtain ⟨t, hs, hreach', hpos', ht, hreading, hout, hagrees⟩ :=
    agrees_of_similar hsource hsource' hreach hpos
  have hplace := place_of_comment (Or.inl hkind)
  have hcount' : (body ++ ['*', '/']).count '\n' = (body' ++ ['*', '/']).count '\n' := by
    simp [hcount]
  obtain ⟨l, l', rest', hl, hl', hsimilar, hkind'⟩ := joinBraces_similar o s hcount' rest
  have hnext := next_blockComment o hplace hbody rest
  have hnext' := next_blockComment o (hreading ▸ hplace) hbody' rest
  rw [hl] at hnext
  rw [← joinBraces_congr o hreading hout, hl'] at hnext'
  refine ⟨⟨t, '/', _, hreach', hpos', ht, ?_⟩, hagrees l l' rest' hsimilar hnext hnext'⟩
  rw [hnext']
  exact hkind'

/-- A line comment that two sources say differently before the same end. -/
theorem agrees_of_lineComment {o : ScanOptions} {source source' : String}
    {front body body' ending rest : List Char}
    (hsource : source.toList = front ++ '/' :: '/' :: (body ++ ending ++ rest))
    (hsource' : source'.toList = front ++ '/' :: '/' :: (body' ++ ending ++ rest))
    (hbody : '\n' ∉ body) (hbody' : '\n' ∉ body') (hend : LineEnd body ending rest)
    (hend' : LineEnd body' ending rest)
    (hdir : ¬ Starts o source' Lexeme.isDirective (byteSize front))
    (hstarts : Starts o source Lexeme.isLineComment (byteSize front)) :
    Starts o source' Lexeme.isLineComment (byteSize front) ∧
      (strip o source).Agrees (strip o source') := by
  obtain ⟨s, c, cs, hreach, hpos, hrest, hkind⟩ := hstarts
  obtain ⟨t, hs, hreach', hpos', ht, hreading, hout, hagrees⟩ :=
    agrees_of_similar hsource hsource' hreach hpos
  have hplace := place_of_comment (Or.inr hkind)
  obtain ⟨rfl, rfl⟩ := List.cons.inj (hrest.symm.trans hs)
  have hnext : next o s '/' ('/' :: (body ++ ending ++ rest)) =
      (.lineComment body ending, rest) := by
    rcases next_lineComment o hplace hbody hend with hline | hline
    · generalize (next o s '/' ('/' :: (body ++ ending ++ rest))).1 = l at hline hkind
      cases l <;> simp [Lexeme.isDirective, Lexeme.isLineComment] at hline hkind
    · exact hline
  have hnext' : next o t '/' ('/' :: (body' ++ ending ++ rest)) =
      (.lineComment body' ending, rest) := by
    rcases next_lineComment o (hreading ▸ hplace) hbody' hend' with hline | hline
    · exact absurd ⟨t, '/', _, hreach', hpos', ht, hline⟩ hdir
    · exact hline
  refine ⟨⟨t, '/', _, hreach', hpos', ht, ?_⟩, ?_⟩
  · rw [hnext']
    rfl
  · exact hagrees _ _ rest (.lineComment ending hbody hbody') hnext hnext'

end Scan

open Scan (Starts)

/-- **What a comment says does not matter.** Wherever a comment stands and whatever is around it,
saying something else in it, with equally many line feeds, leaves the text, the counts and, but
for offsets, the diagnostics as they are. A line comment must not become a directive. -/
theorem strip_comment_contents (o : ScanOptions) (pre post c₁ c₂ : String) :
    (¬ "*/".toList <:+: c₁.toList → ¬ "*/".toList <:+: c₂.toList →
      c₁.toList.count '\n' = c₂.toList.count '\n' →
      Starts o (pre ++ "/*" ++ c₁ ++ "*/" ++ post) Lexeme.isBlockComment pre.utf8ByteSize →
      Starts o (pre ++ "/*" ++ c₂ ++ "*/" ++ post) Lexeme.isBlockComment pre.utf8ByteSize ∧
        (strip o (pre ++ "/*" ++ c₁ ++ "*/" ++ post)).Agrees
          (strip o (pre ++ "/*" ++ c₂ ++ "*/" ++ post))) ∧
    ('\n' ∉ c₁.toList → '\n' ∉ c₂.toList →
      c₁.toList.getLast? ≠ some '\r' → c₂.toList.getLast? ≠ some '\r' →
      (post = "" ∨ post.toList.head? = some '\n') →
      ¬ Starts o (pre ++ "//" ++ c₂ ++ post) Lexeme.isDirective pre.utf8ByteSize →
      Starts o (pre ++ "//" ++ c₁ ++ post) Lexeme.isLineComment pre.utf8ByteSize →
      Starts o (pre ++ "//" ++ c₂ ++ post) Lexeme.isLineComment pre.utf8ByteSize ∧
        (strip o (pre ++ "//" ++ c₁ ++ post)).Agrees (strip o (pre ++ "//" ++ c₂ ++ post))) := by
  rw [← byteSize_toList]
  constructor
  · intro h₁ h₂ hcount hstarts
    have hsource (c : String) : (pre ++ "/*" ++ c ++ "*/" ++ post).toList =
        pre.toList ++ '/' :: '*' :: (c.toList ++ ['*', '/'] ++ post.toList) := by simp
    exact Scan.agrees_of_blockComment (hsource c₁) (hsource c₂) h₁ h₂ hcount hstarts
  · intro h₁ h₂ hret₁ hret₂ hpost hdir hstarts
    -- the comment ends at the line feed that follows, or with the text
    obtain ⟨ending, rest, hsplit, hend⟩ : ∃ ending rest, post.toList = ending ++ rest ∧
        ∀ body : List Char, body.getLast? ≠ some '\r' → LineEnd body ending rest := by
      rcases hpost with rfl | hhead
      · exact ⟨[], [], rfl, fun body _ => .stop body⟩
      · obtain ⟨rest, hrest⟩ := List.head?_eq_some_iff.mp hhead
        exact ⟨['\n'], rest, hrest, fun body hret => .feed rest hret⟩
    refine Scan.agrees_of_lineComment ?_ ?_ h₁ h₂ (hend _ hret₁) (hend _ hret₂) hdir hstarts
    · simp [hsplit]
    · simp [hsplit]

/-- A directive starts with three slashes. -/
theorem Scan.Starts.slashes {o : ScanOptions} {source : String} {front rest : List Char}
    (h : Starts o source Lexeme.isDirective (byteSize front))
    (hsource : source.toList = front ++ rest) : ['/', '/', '/'] <+: rest := by
  obtain ⟨s, c, cs, hreach, hpos, hrest, hkind⟩ := h
  obtain ⟨read, hreads⟩ := hreach.reads
  obtain ⟨-, rfl⟩ := hreads.eq hsource hpos
  have hkinds := fits_or_jsx o s c cs
  rw [hrest, ← next_append o s c cs]
  generalize next o s c cs = read at hkind hkinds ⊢
  obtain ⟨l, rest⟩ := read
  rcases hkinds with hfits | ⟨-, body, tail, rfl⟩
  · cases hfits with
    | directive _ hdir _ => exact (slashes_of_isDirective hdir).trans (List.prefix_append ..)
    | _ => simp [Lexeme.isDirective] at hkind
  · simp [Lexeme.isDirective] at hkind

/-- A comment that takes its braces away, and one in an interpolation that is never closed. -/
theorem strip_comment_contents_instances :
    (strip {} ("\x7b" ++ "/*" ++ "a\n" ++ "*/" ++ "\x7d")).Agrees
      (strip {} ("\x7b" ++ "/*" ++ "\n'`" ++ "*/" ++ "\x7d")) ∧
    (strip {} ("`$\x7b" ++ "//" ++ "a" ++ "\n")).Agrees
      (strip {} ("`$\x7b" ++ "//" ++ "'*" ++ "\n")) := by
  have hblock : Starts {} ("\x7b" ++ "/*" ++ "a\n" ++ "*/" ++ "\x7d") Lexeme.isBlockComment
      "\x7b".utf8ByteSize := ⟨_, _, _, .step rfl (.refl _), by decide, rfl, by decide⟩
  have hline : Starts {} ("`$\x7b" ++ "//" ++ "a" ++ "\n") Lexeme.isLineComment
      "`$\x7b".utf8ByteSize := ⟨_, _, _, .step rfl (.step rfl (.refl _)), by decide, rfl, by decide⟩
  have hdir : ¬ Starts {} ("`$\x7b" ++ "//" ++ "'*" ++ "\n") Lexeme.isDirective
      "`$\x7b".utf8ByteSize := by
    rw [← byteSize_toList]
    intro h
    have hsource : ("`$\x7b" ++ "//" ++ "'*" ++ "\n").toList =
        "`$\x7b".toList ++ "//'*\n".toList := by decide
    exact absurd (h.slashes hsource) (by decide)
  exact ⟨((strip_comment_contents {} "\x7b" "\x7d" "a\n" "\n'`").1 (by decide) (by decide)
      (by decide) hblock).2,
    ((strip_comment_contents {} "`$\x7b" "\n" "a" "'*").2 (by decide) (by decide) (by decide)
      (by decide) (Or.inr (by decide)) hdir hline).2⟩

end Uncomment
