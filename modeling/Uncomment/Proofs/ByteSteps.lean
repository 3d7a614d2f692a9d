/-
# A scan by byte offsets never gives up

Each step of a scan by byte offsets does what the step at characters does (`step_bytes`). What has
to be known of the state before it is that its offset stands between two characters of the source,
before what is still to be read; that its counts are not above its offset, so that one more can be
counted; and that every open interpolation has a brace to close (`Within`). All states of a scan
are like that (`within_of_reaches`).

Every step leaves fewer bytes to be read, so as many steps as the source has bytes are enough
(`run_bytes`), and the whole scan has the result of the scan at characters (`strip_bytes`).

Key definitions: `Scan.State.bytes`, `Scan.Within`.
Key theorems: `Scan.within_of_reaches`, `Scan.step_bytes`, `Scan.run_bytes`, `scan_by_bytes`.
-/
import Uncomment.Proofs.ByteScan
import Uncomment.Proofs.Faults
import Uncomment.Proofs.Unique

namespace Uncomment

open Text

namespace Scan

/-! ### States by bytes -/

/-- The diagnostics of faults, the last of which comes first. -/
def located (source : String) (faults : List Fault) : List Diagnostic :=
  faults.reverse.map (·.locate (.ofChars source.toList))

theorem located_note (source : String) (s : State) (closed : Bool) (defect : Defect)
    (text : List Char) :
    located source (s.note closed defect text) =
      located source s.faults ++ if closed then [] else
        [Fault.locate (.ofChars source.toList)
          ⟨defect, .between s.pos (s.pos + byteSize text)⟩] := by
  cases closed with
  | true => simp [State.note]
  | false => simp [State.note, located]

/-- A state of the scan of a source, by byte offsets. -/
def State.bytes (source : String) (s : State) : ByteScan where
  source
  pos := s.pos
  out := s.out.reverse
  tracker := s.tracker
  frames := s.frames
  stats := s.stats
  diagnostics := located source s.faults

/-- The state after a lexeme that is copied. -/
theorem bytes_absorb_copied (source : String) {s : State} {l : Lexeme} {rest : List Char}
    (hout : (absorb s l rest).out = l.text.reverse ++ s.out) :
    (absorb s l rest).bytes source = { (s.bytes source).copied l.text with
      tracker := (absorb s l rest).tracker
      frames := (absorb s l rest).frames
      stats := (absorb s l rest).stats
      diagnostics := located source (absorb s l rest).faults } := by
  simp [State.bytes, ByteScan.copied, ByteScan.write, ByteScan.past, hout, pos_absorb]

/-- What holds of a state of the scan of a source: the scan stands before what is still to be
read, its counts are not above its offset, and neither are the braces that are open. -/
structure Within (source : String) (s : State) : Prop where
  faces : (s.bytes source).Faces s.rest
  counted : s.stats.removed + s.stats.directives ≤ s.pos
  depth : ∀ start depth, .interpolation start depth ∈ s.frames → 1 ≤ depth ∧ depth ≤ s.pos

/-- No lexeme counts for more than its size. -/
theorem counts_le_byteSize {l : Lexeme} (h : l.text ≠ []) :
    l.counts.removed + l.counts.directives ≤ byteSize l.text := by
  have hpos := byteSize_pos h
  have hone : l.counts.removed + l.counts.directives ≤ 1 := by
    cases l <;> simp [Lexeme.counts, Stats.removed]
  omega

theorem within_of_reaches {o : ScanOptions} {source : String} {s : State}
    (h : Reaches o { rest := source.toList } s) (hsize : source.utf8ByteSize < 2 ^ 32) :
    Within source s where
  faces := by
    obtain ⟨front, hreads⟩ := h.reads
    exact ⟨⟨front, hreads.source_eq, hreads.pos_eq⟩, hsize⟩
  counted := by
    refine h.keeps (P := fun s => s.stats.removed + s.stats.directives ≤ s.pos) ?_ (le_refl _)
    intro s c cs _ hs
    have hcounts := counts_le_byteSize (next_text_ne o s c cs)
    rw [step, stats_absorb, pos_absorb, Stats.add_def]
    simp only [Stats.removed] at hs hcounts ⊢
    omega
  depth := by
    intro start depth hmem
    have hpos := (stacked_of_reaches h).depthPos start depth hmem
    have hroom := (stacked_of_reaches h).depth_lt start depth hmem
    exact ⟨hpos, by omega⟩

/-- Whether the offset and the counts of a state leave room for one more. -/
structure State.HasRoom (s : State) : Prop where
  pos_lt : s.pos + 1 < 2 ^ 32
  counts_lt : s.stats.removed + s.stats.directives + 1 < 2 ^ 32

/-- There is room for one more while something is left to be read. -/
theorem Within.hasRoom {source : String} {s : State} (h : Within source s) (hrest : s.rest ≠ []) :
    s.HasRoom := by
  have hsize : s.pos + byteSize s.rest = source.utf8ByteSize := h.faces.pos_add
  have hlt : source.utf8ByteSize < 2 ^ 32 := h.faces.size_lt
  have hpos := byteSize_pos hrest
  have hcounted := h.counted
  exact ⟨by omega, by omega⟩

namespace ByteScan

variable {source : String} {s : State} {o : ScanOptions} {ctx : Context}

theorem Faces.copyCode_eq {b : ByteScan} {c : Char} {cs : List Char} (h : b.Faces (c :: cs)) :
    b.copyCode c = some { b.copied [c] with tracker := b.tracker.update c } := by
  rw [copyCode, h.copy_eq]
  rfl

theorem copyCode_bytes {c : Char} {cs : List Char} (h : (s.bytes source).Faces (c :: cs))
    (hframes : countBrace c s.frames = s.frames) :
    (s.bytes source).copyCode c = some ((absorb s (.code c) cs).bytes source) := by
  have hsame : (absorb s (.code c) cs).frames = s.frames := hframes
  rw [h.copyCode_eq, bytes_absorb_copied source rfl, hsame]
  rfl

theorem openTemplate_bytes {cs : List Char} (h : (s.bytes source).Faces (backtick :: cs)) :
    (s.bytes source).openTemplate = some ((absorb s .openTemplate cs).bytes source) := by
  rw [openTemplate, h.copy_eq, bytes_absorb_copied source rfl]
  rfl

/-- A literal is copied as it is, and reported if it is not closed. -/
theorem copyLiteral_eq {extentOf : List Char → Extent} {c : Char} {cs : List Char}
    (h : (s.bytes source).Faces (c :: cs)) (hlen : (extentOf cs).length ≤ cs.length)
    (hroom : s.HasRoom) (defect : Defect) :
    (s.bytes source).copyLiteral extentOf defect c =
      some { (s.bytes source).copied (c :: cs.take (extentOf cs).length) with
        tracker := .resetTo c
        diagnostics := located source
          (s.note (extentOf cs).closed defect (c :: cs.take (extentOf cs).length)) } := by
  have hwhole : (s.bytes source).Faces
      ((c :: cs.take (extentOf cs).length) ++ cs.drop (extentOf cs).length) := by
    rw [List.cons_append, List.take_append_drop]
    exact h
  have hcopy := hwhole.copyN_eq
  rw [List.length_cons, List.length_take_of_le hlen] at hcopy
  rw [copyLiteral, h.rest_eq]
  simp only [Option.bind_eq_bind, Option.bind_some, List.tail_cons, hcopy]
  rw [reportUnless_eq _ _ defect (by exact hroom.pos_lt), located_note]
  rfl

theorem quotedExtent_length_le (quote : Char) (cs : List Char) :
    (quotedExtent quote 0 cs).length ≤ cs.length := by
  obtain ⟨body, ending, rest, hcs, -, -, hlen⟩ := quotedExtent_spec quote 0 cs
  rw [hlen, hcs]
  simp only [List.length_append]
  omega

theorem regexExtent_length_le (cs : List Char) :
    (regexExtent false 0 cs).length ≤ cs.length := by
  obtain ⟨body, ending, rest, inClass, hcs, -, -, hlen⟩ := regexExtent_spec false 0 cs
  rw [hlen, hcs]
  simp only [List.length_append]
  omega

theorem quoted_bytes {quote : Char} {cs : List Char} (h : (s.bytes source).Faces (quote :: cs))
    (hroom : s.HasRoom) :
    (s.bytes source).copyLiteral (quotedExtent quote 0) (.string quote) quote =
      some ((absorb s (nextQuoted quote cs).1 (nextQuoted quote cs).2).bytes source) := by
  rw [copyLiteral_eq h (quotedExtent_length_le quote cs) hroom, bytes_absorb_copied source rfl]
  rfl

theorem regex_bytes {cs : List Char} (h : (s.bytes source).Faces ('/' :: cs))
    (hroom : s.HasRoom) :
    (s.bytes source).copyLiteral (regexExtent false 0) .regex '/' =
      some ((absorb s (nextRegex cs).1 (nextRegex cs).2).bytes source) := by
  rw [copyLiteral_eq h (regexExtent_length_le cs) hroom, bytes_absorb_copied source rfl]
  rfl

theorem directive_bytes {cs : List Char} (h : (s.bytes source).Faces cs)
    (hroom : s.HasRoom) :
    (s.bytes source).copyDirective =
      some ((absorb s (.directive (cs.take (lineExtent 0 cs).length))
        (cs.drop (lineExtent 0 cs).length)).bytes source) := by
  obtain ⟨line, rest, hcs, hline, hlen⟩ := lineExtent_spec 0 cs
  obtain ⟨htake, hdrop⟩ := take_drop_parts hcs hlen
  rw [hcs] at h
  rw [htake, hdrop, copyDirective, h.rest_eq]
  simp only [Option.bind_eq_bind, Option.bind_some, lineSize_eq hline h.rest_lt, h.copyBytes_eq]
  rw [tally_eq rfl (by exact hroom.counts_lt), bytes_absorb_copied source rfl]
  rfl

/-- Every text begins with a line, its line terminator apart. -/
theorem exists_lineEnd (cs : List Char) :
    ∃ body ending rest, cs = body ++ ending ++ rest ∧ '\n' ∉ body ∧ LineEnd body ending rest := by
  obtain ⟨line, rest, rfl, hline, -⟩ := lineExtent_spec 0 cs
  cases hline with
  | feed line rest hfeed =>
    by_cases hlast : line.getLast? = some '\r'
    · obtain ⟨body, rfl⟩ := List.getLast?_eq_some_iff.mp hlast
      refine ⟨body, ['\r', '\n'], rest, by simp, ?_, .crlf body rest⟩
      intro hmem
      exact hfeed (List.mem_append_left _ hmem)
    · exact ⟨line, ['\n'], rest, rfl, hfeed, .feed rest hlast⟩
  | stop hfeed => exact ⟨line, [], [], by simp, hfeed, .stop line⟩

theorem lineEnd_slashes {body ending rest : List Char} (h : LineEnd body ending rest) :
    LineEnd ('/' :: '/' :: body) ending rest := by
  cases h with
  | feed rest hlast =>
    refine .feed rest ?_
    cases body with
    | nil => decide
    | cons c cs => simpa using hlast
  | crlf rest => exact .crlf _ rest
  | stop => exact .stop _

theorem lineComment_bytes {cs : List Char} (h : (s.bytes source).Faces ('/' :: '/' :: cs))
    (hroom : s.HasRoom) :
    (s.bytes source).lineComment =
      some ((absorb s (nextLineComment cs).1 (nextLineComment cs).2).bytes source) := by
  obtain ⟨body, ending, rest, rfl, hbody, hend⟩ := exists_lineEnd cs
  rw [nextLineComment_of_parts hbody hend]
  have hparts : '/' :: '/' :: (body ++ ending ++ rest) =
      ('/' :: '/' :: body) ++ (ending ++ rest) := by simp
  have hslashes : '\n' ∉ '/' :: '/' :: body := by simp [hbody]
  rw [hparts] at h
  rw [lineComment, h.rest_eq]
  simp only [Option.bind_eq_bind, Option.bind_some, bareLineSize_eq hslashes (lineEnd_slashes hend),
    h.skip_eq, h.past.copyEnding_eq hend]
  rw [tally_eq rfl (by exact hroom.counts_lt)]
  simp [absorb, State.bytes, copied, write, past, Lexeme.text, Stats.add_def, Nat.add_assoc]

/-- A block comment is measured, and moved over with or without braces. -/
theorem blockComment_eq {closed : Bool} {body rest : List Char}
    (h : (s.bytes source).Faces (('/' :: '*' :: body) ++ rest))
    (hbody : BlockBody closed body rest) :
    (s.bytes source).blockComment o ctx =
      if closed && s.bracesGo o ctx rest then
        ((s.bytes source).past ('/' :: '*' :: body)).dropBraces.bind
          (leaveFeeds (body.count '\n') closed s.pos)
      else
        (((s.bytes source).past ('/' :: '*' :: body)).tally { blockComments := 1 }).bind
          (leaveFeeds (body.count '\n') closed s.pos) := by
  obtain ⟨front, back, hfront, hfeeds, hends⟩ := commentEnds_eq hbody h.rest_lt
  have hbefore : sliceTo (('/' :: '*' :: body) ++ rest) (byteSize ('/' :: '*' :: front)) =
      some ('/' :: '*' :: front) := by
    rw [hfront, ← List.cons_append, ← List.cons_append, List.append_assoc]
    exact sliceTo_append ..
  -- whether the comment is closed is asked before the braces are, and not after
  have halone : (ctx == .topLevel && o.jsxComments && closed &&
      ((s.bytes source).out.rdropWhile isSpaceOrTab).getLast? == some '{' && facesBrace rest) =
      (closed && s.bracesGo o ctx rest) := by
    have hout : (s.bytes source).out = s.out.reverse := rfl
    rw [hout, getLast?_rdropWhile_reverse, State.bracesGo, followsBrace]
    cases closed <;> simp
  have hnewlines : ('/' :: '*' :: front).count '\n' = body.count '\n' := by
    rw [← hfeeds]
    simp
  rw [blockComment, h.rest_eq]
  simp only [Option.bind_eq_bind, Option.bind_some]
  rw [List.cons_append, List.cons_append, hends]
  simp only [Option.bind_some]
  rw [← List.cons_append, ← List.cons_append, hbefore, sliceFrom_append]
  simp only [Option.bind_some, halone, h.skip_eq, hnewlines]
  rfl

theorem blockComment_bytes {cs : List Char} (h : (s.bytes source).Faces ('/' :: '*' :: cs))
    (hroom : s.HasRoom) :
    (s.bytes source).blockComment o ctx =
      some ((absorb s (nextBlockComment (s.bracesGo o ctx) cs).1
        (nextBlockComment (s.bracesGo o ctx) cs).2).bytes source) := by
  obtain ⟨body, rest, hcs, hbody, hlen⟩ := blockExtent_spec 0 cs
  obtain ⟨htake, hdrop⟩ := take_drop_parts hcs hlen
  have htext : (s.bytes source).Faces (('/' :: '*' :: body) ++ rest) := by
    rw [hcs] at h
    exact h
  rw [blockComment_eq htext hbody]
  simp only [nextBlockComment, htake, hdrop]
  generalize (blockExtent 0 cs).closed = closed at hbody ⊢
  by_cases hgo : (closed && s.bracesGo o ctx rest) = true
  · rw [if_pos hgo, if_pos hgo]
    simp only [State.bracesGo, Bool.and_eq_true] at hgo
    obtain ⟨rfl, ⟨-, hbrace⟩, hface⟩ := hgo
    obtain ⟨rest', hrest⟩ := facesBrace_split hface
    have hparts : rest = (rest.takeWhile isSpaceOrTab ++ ['}']) ++ rest' := by simpa using hrest
    have hlen' : (rest.takeWhile isSpaceOrTab).length + 1 =
        0 + (rest.takeWhile isSpaceOrTab ++ ['}']).length := by simp
    obtain ⟨htake', hdrop'⟩ := take_drop_parts hparts hlen'
    rw [htext.past.dropBraces_eq rfl hbrace hface (by exact hroom.counts_lt), Option.bind_some,
      leaveFeeds, reportUnless_eq _ _ _ (by exact hroom.pos_lt), cut, htake', hdrop']
    simp [absorb, State.bytes, write, past, Lexeme.text, Stats.add_def, feeds_eq, Nat.add_assoc]
  · rw [if_neg hgo, if_neg hgo, tally_eq rfl (by exact hroom.counts_lt), Option.bind_some,
      leaveFeeds, reportUnless_eq _ _ _ (by exact hroom.pos_lt)]
    simp [absorb, State.bytes, write, past, Lexeme.text, Stats.add_def, feeds_eq, located_note]

theorem isPrefixOf_pair_iff {a b c : Char} {cs : List Char} :
    [a, b].isPrefixOf (c :: cs) = true ↔ c = a ∧ cs.head? = some b := by
  rw [List.isPrefixOf_iff_prefix, List.cons_prefix_cons, eq_comm,
    List.singleton_prefix_iff_head?_eq_some]

theorem countBrace_of_ne {c : Char} (hopen : c ≠ '{') (hclose : c ≠ '}') (frames : List Frame) :
    countBrace c frames = frames := by
  unfold countBrace
  split
  · rw [if_neg hopen, if_neg hclose]
  · rfl

theorem slash_bytes {cs : List Char} (h : (s.bytes source).Faces ('/' :: cs))
    (hroom : s.HasRoom) :
    (s.bytes source).slash o ctx =
      some ((absorb s (nextSlash o s ctx cs).1 (nextSlash o s ctx cs).2).bytes source) := by
  rw [slash, h.rest_eq]
  simp only [Option.bind_eq_bind, Option.bind_some]
  by_cases hslash : cs.head? = some '/'
  · obtain ⟨cs, rfl⟩ := List.head?_eq_some_iff.mp hslash
    unfold nextSlash
    by_cases hdir : (ctx == .topLevel && isDirective ('/' :: '/' :: cs)) = true
    · rw [if_pos hdir, if_pos hdir]
      exact directive_bytes h hroom
    · rw [if_neg hdir, if_neg hdir]
      exact lineComment_bytes h hroom
  · have hdir : ¬ (ctx == .topLevel && isDirective ('/' :: cs)) = true := by
      simp [isDirective_eq_false hslash]
    rw [if_neg hdir, if_neg (fun hpair => hslash (isPrefixOf_pair_iff.mp hpair).2)]
    by_cases hstar : cs.head? = some '*'
    · obtain ⟨cs, rfl⟩ := List.head?_eq_some_iff.mp hstar
      unfold nextSlash
      rw [if_neg hdir]
      exact blockComment_bytes h hroom
    · rw [nextSlash_of_head hslash hstar,
        if_neg (fun hpair => hstar (isPrefixOf_pair_iff.mp hpair).2)]
      by_cases hregex : (s.tracker.canStartRegex && opensRegex cs) = true
      · rw [if_pos hregex]
        exact (if_pos hregex).trans (regex_bytes h hroom)
      · rw [if_neg hregex]
        exact (if_neg hregex).trans
          (copyCode_bytes h (countBrace_of_ne (by decide) (by decide) s.frames))

/-- **Code is read alike.** -/
theorem codeStep_bytes {c : Char} {cs : List Char} (h : (s.bytes source).Faces (c :: cs))
    (hroom : s.HasRoom) (hframes : countBrace c s.frames = s.frames) :
    (s.bytes source).codeStep o ctx c =
      some ((absorb s (nextCode o s ctx c cs).1 (nextCode o s ctx c cs).2).bytes source) := by
  unfold codeStep nextCode
  by_cases hquote : isQuote c = true
  · rw [if_pos hquote, if_pos hquote]
    exact quoted_bytes h hroom
  · rw [if_neg hquote, if_neg hquote]
    by_cases htick : c = backtick
    · subst htick
      rw [if_pos rfl, if_pos rfl]
      exact openTemplate_bytes h
    · rw [if_neg htick, if_neg htick]
      by_cases hslash : c = '/'
      · subst hslash
        rw [if_pos rfl, if_pos rfl]
        exact slash_bytes h hroom
      · rw [if_neg hslash, if_neg hslash]
        exact copyCode_bytes h hframes

/-- **Templates are read alike.** -/
theorem templateStep_bytes {c : Char} {cs : List Char} (h : (s.bytes source).Faces (c :: cs)) :
    (s.bytes source).templateStep c =
      some ((absorb s (nextTemplate c cs).1 (nextTemplate c cs).2).bytes source) := by
  rw [templateStep, h.rest_eq]
  simp only [Option.bind_eq_bind, Option.bind_some]
  unfold nextTemplate
  by_cases hback : c = '\\'
  · subst hback
    rw [if_pos rfl]
    cases cs with
    | nil =>
      -- a backslash that is the last character is copied alone
      rw [if_neg (by simp), if_neg (by decide), if_neg (by decide), h.copy_eq,
        bytes_absorb_copied source rfl]
      rfl
    | cons d cs =>
      have hpair : (s.bytes source).Faces (['\\', d] ++ cs) := h
      rw [if_pos (by simp), bytes_absorb_copied source rfl]
      exact hpair.copyN_eq
  · rw [if_neg (fun hboth => hback hboth.1), if_neg hback]
    by_cases htick : c = backtick
    · subst htick
      rw [if_pos rfl, if_pos rfl, h.copy_eq, bytes_absorb_copied source rfl]
      rfl
    · rw [if_neg htick, if_neg htick]
      by_cases hopen : c = '$' ∧ cs.head? = some '{'
      · obtain ⟨rfl, hbrace⟩ := hopen
        obtain ⟨cs, rfl⟩ := List.head?_eq_some_iff.mp hbrace
        have hpair : (s.bytes source).Faces (['$', '{'] ++ cs) := h
        have hcopy : (s.bytes source).copyN 2 = some ((s.bytes source).copied ['$', '{']) :=
          hpair.copyN_eq
        rw [if_pos (by simp), if_pos (by simp), hcopy, bytes_absorb_copied source rfl]
        rfl
      · have hnot : ['$', '{'].isPrefixOf (c :: cs) = false := by
          rw [Bool.eq_false_iff, ne_eq, isPrefixOf_pair_iff]
          exact hopen
        rw [hnot, if_neg hopen, h.copy_eq, bytes_absorb_copied source rfl]
        rfl

/-- **Interpolations are read alike.** The brace that is counted down is open, so that the number of
open braces can go down by one. -/
theorem interpolationStep_bytes {start depth : Nat} {outer : List Frame} {c : Char} {cs : List Char}
    (hframes : s.frames = .interpolation start depth :: outer)
    (h : (s.bytes source).Faces (c :: cs)) (hdepth : 1 ≤ depth) (hle : depth ≤ s.pos)
    (hroom : s.HasRoom) :
    (s.bytes source).interpolationStep o c =
      some ((absorb s (nextCode o s .interpolation c cs).1
        (nextCode o s .interpolation c cs).2).bytes source) := by
  have hbytes : (s.bytes source).frames = .interpolation start depth :: outer := hframes
  unfold interpolationStep
  rw [hbytes]
  dsimp only
  by_cases hopen : c = '{'
  · subst hopen
    have hfaces : { s.bytes source with
        frames := .interpolation start (depth + 1) :: outer }.Faces ('{' :: cs) := h.congr rfl rfl
    have hnext : nextCode o s .interpolation '{' cs = (.code '{', cs) := rfl
    have hafter : (absorb s (.code '{') cs).frames = .interpolation start (depth + 1) :: outer := by
      simp [absorb, hframes, countBrace]
    have hlt := hroom.pos_lt
    rw [if_pos rfl, addWithin_eq (by omega), hnext, bytes_absorb_copied source rfl, hafter]
    exact hfaces.copyCode_eq
  · rw [if_neg hopen]
    by_cases hclose : c = '}'
    · subst hclose
      have hfaces : { s.bytes source with
          frames := .interpolation start (depth - 1) :: outer }.Faces ('}' :: cs) := h.congr rfl rfl
      have hnext : nextCode o s .interpolation '}' cs = (.code '}', cs) := rfl
      rw [if_pos rfl, subWithin_eq hdepth, hnext, bytes_absorb_copied source rfl]
      simp only [Option.bind_eq_bind, Option.bind_some, hfaces.copyCode_eq]
      by_cases hone : depth = 1
      · have hafter : (absorb s (.code '}') cs).frames = outer := by
          simp [absorb, hframes, countBrace, hone]
        rw [if_pos (by omega), hafter]
        rfl
      · have hafter : (absorb s (.code '}') cs).frames =
            .interpolation start (depth - 1) :: outer := by
          simp [absorb, hframes, countBrace, hone]
        rw [if_neg (by omega), hafter]
        rfl
    · rw [if_neg hclose]
      exact codeStep_bytes h hroom (countBrace_of_ne hopen hclose s.frames)

end ByteScan

/-! ### Runs -/

/-- **One step by bytes.** It does what the step at characters does. -/
theorem step_bytes {source : String} {s : State} {c : Char} {cs : List Char} (o : ScanOptions)
    (h : Within source s) (hrest : s.rest = c :: cs) :
    (s.bytes source).step o c = some ((step o s c cs).bytes source) := by
  have hroom := h.hasRoom (by simp [hrest])
  have hfaces : (s.bytes source).Faces (c :: cs) := hrest ▸ h.faces
  have hframes : (s.bytes source).frames = s.frames := rfl
  unfold ByteScan.step Scan.step next
  rw [hframes]
  match hs : s.frames with
  | [] => exact ByteScan.codeStep_bytes hfaces hroom (by rw [hs]; rfl)
  | .template _ :: _ => exact ByteScan.templateStep_bytes hfaces
  | .interpolation start depth :: outer =>
    obtain ⟨hpos, hle⟩ := h.depth start depth (by simp [hs])
    exact ByteScan.interpolationStep_bytes hs hfaces hpos hle hroom

theorem Reaches.snoc {o : ScanOptions} {s t : State} {c : Char} {cs : List Char}
    (h : Reaches o s t) (hrest : t.rest = c :: cs) : Reaches o s (Scan.step o t c cs) := by
  induction h with
  | refl s => exact .step hrest (.refl _)
  | step hs _ ih => exact .step hs (ih hrest)

/-- A step leaves fewer bytes to be read. -/
theorem byteSize_rest_step (o : ScanOptions) (s : State) (c : Char) (cs : List Char) :
    byteSize (step o s c cs).rest < byteSize (c :: cs) := by
  have hpos := byteSize_pos (next_text_ne o s c cs)
  rw [← next_append o s c cs, byteSize_append, step, absorb_rest]
  omega

/-- **A whole run by bytes.** As many steps as there are bytes to be read are enough. -/
theorem run_bytes {o : ScanOptions} {source : String} (hsize : source.utf8ByteSize < 2 ^ 32) :
    ∀ (n : Nat) {s : State}, Reaches o { rest := source.toList } s → byteSize s.rest ≤ n →
      (s.bytes source).run o n = some ((run o s).bytes source) := by
  intro n
  induction n with
  | zero =>
    intro s hreach hle
    have hnil : s.rest = [] := by
      by_contra hne
      have hpos := byteSize_pos hne
      omega
    have hfaces := (within_of_reaches hreach hsize).faces
    rw [ByteScan.run, hfaces.rest_eq, hnil, run_nil o hnil]
    rfl
  | succ n ih =>
    intro s hreach hle
    have hwithin := within_of_reaches hreach hsize
    rw [ByteScan.run, hwithin.faces.rest_eq]
    simp only [Option.bind_eq_bind, Option.bind_some]
    match hrest : s.rest with
    | [] =>
      rw [run_nil o hrest]
      rfl
    | c :: cs =>
      have hless := byteSize_rest_step o s c cs
      rw [hrest] at hle
      dsimp only
      rw [run_cons o hrest, step_bytes o hwithin hrest]
      exact ih (hreach.snoc hrest) (by omega)

/-- The frames that are still open are reported, outermost first. -/
theorem report_frames {source : String} : ∀ {frames : List Frame} {b : ByteScan},
    b.source = source → (∀ f ∈ frames, f.start + 1 < 2 ^ 32) →
    frames.foldlM (fun (b : ByteScan) frame => b.report frame.defect frame.start) b =
      some { b with diagnostics := b.diagnostics ++ frames.map fun f =>
        Fault.locate (.ofChars source.toList) ⟨f.defect, .between f.start b.pos⟩ }
  | [], b, _, _ => by simp
  | f :: frames, b, hsource, h => by
    subst hsource
    rw [List.foldlM_cons, b.report_eq f.defect (h f (by simp))]
    refine (report_frames rfl fun g hg => h g (by simp [hg])).trans ?_
    simp

/-- **The result by bytes.** What is still open at the end is reported from positions that lie
before the end. -/
theorem strip_bytes (o : ScanOptions) {source : String} (hsize : source.utf8ByteSize < 2 ^ 32) :
    ByteScan.strip o source = some (strip o source) := by
  have hreach := reaches_run o { rest := source.toList }
  have hrun : ByteScan.run o source.utf8ByteSize { source } =
      some ((run o { rest := source.toList }).bytes source) :=
    run_bytes hsize source.utf8ByteSize (.refl _) (le_of_eq (byteSize_toList source))
  unfold ByteScan.strip strip
  dsimp only
  rw [hrun]
  generalize run o { rest := source.toList } = done at hreach ⊢
  have hstarts : ∀ f ∈ done.frames.reverse, f.start + 1 < 2 ^ 32 := by
    intro f hf
    have hlt := (stacked_of_reaches hreach).start_lt f (List.mem_reverse.mp hf)
    have hle := pos_le_of_reaches hreach
    rw [byteSize_toList] at hle
    omega
  have hreport := report_frames (b := done.bytes source) rfl hstarts
  simp only [Option.bind_eq_bind, Option.bind_some]
  rw [show (done.bytes source).frames = done.frames from rfl, hreport]
  simp [State.allFaults, State.openFaults, State.bytes, located]

end Scan

/-- **A scan by bytes never gives up.** For every source shorter than 2^32 bytes and all options,
every step of the scan by byte offsets does what the step at characters does; it moves on, stays
inside the source and stops between two characters; and the whole scan ends after at most as many
steps as the source has bytes, with the same result. -/
theorem scan_by_bytes (o : ScanOptions) (source : String) (h : source.utf8ByteSize < 2 ^ 32) :
    (∀ s c cs, Scan.Reaches o { rest := source.toList } s → s.rest = c :: cs →
      (s.bytes source).step o c = some ((Scan.step o s c cs).bytes source) ∧
      s.pos < (Scan.step o s c cs).pos ∧
      (Scan.step o s c cs).pos ≤ source.utf8ByteSize ∧
      (String.Pos.Raw.mk (Scan.step o s c cs).pos).IsValid source) ∧
    Scan.ByteScan.strip o source = some (strip o source) := by
  refine ⟨?_, Scan.strip_bytes o h⟩
  intro s c cs hreach hrest
  have hafter := (Scan.within_of_reaches (hreach.snoc hrest) h).faces
  refine ⟨Scan.step_bytes o (Scan.within_of_reaches hreach h) hrest, ?_, ?_, ?_⟩
  · have hpos := byteSize_pos (Scan.next_text_ne o s c cs)
    rw [Scan.step, Scan.pos_absorb]
    omega
  · exact Nat.le.intro hafter.pos_add
  · exact isSome_splitAtByte_iff.mp hafter.splitAtByte_isSome

/-- A comment with braces around it, among characters of two bytes: it ends at offset 12, and what
was written is cut at offset 2. -/
theorem scan_by_bytes_braces :
    "é\x7b /*ü*/\t\x7d".utf8ByteSize < 2 ^ 32 ∧
    Scan.ByteScan.step {} '/'
        { source := "é\x7b /*ü*/\t\x7d", pos := 4, out := ['é', '{', ' '], tracker := ⟨'{', []⟩ } =
      some { source := "é\x7b /*ü*/\t\x7d", pos := 12, out := ['é'], tracker := ⟨'{', []⟩
             stats := { jsxComments := 1 } } ∧
    (String.Pos.Raw.mk 12).IsValid "é\x7b /*ü*/\t\x7d" ∧
    Scan.ByteScan.strip {} "é\x7b /*ü*/\t\x7d" = some (strip {} "é\x7b /*ü*/\t\x7d") := by
  have hsize : "é\x7b /*ü*/\t\x7d".utf8ByteSize < 2 ^ 32 := by decide
  obtain ⟨hsteps, hstrip⟩ := scan_by_bytes {} "é\x7b /*ü*/\t\x7d" hsize
  obtain ⟨hstep, -, -, hvalid⟩ := hsteps
    { rest := "/*ü*/\t\x7d".toList, pos := 4, out := [' ', '{', 'é'], tracker := ⟨'{', []⟩ } '/' _
    (.step rfl (.step rfl (.step rfl (.refl _)))) rfl
  exact ⟨hsize, hstep, hvalid, hstrip⟩

end Uncomment
