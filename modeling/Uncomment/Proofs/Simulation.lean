/-
# Scans with and without brace removal, side by side

A scan that may take braces away is followed, lexeme by lexeme, by one that keeps them. Both
read the same text, report the same faults and have the same frames open. What differs is
what is written, which the first scan undoes in part, and the tracker: the first scan skips a
closing brace that the second one reads as code. Both trackers still give the same answer to
whether a slash can open a regular expression (`Tracker.Alike`), because the first tracker
holds a sign after which it can wherever an opening brace ends what was written.

At the end, what the first scan has written is what the pieces of the second leave after as
many removals as the first has counted (`Follows.run_keeps`).

Key definitions: `Tracker.Alike`, `Scan.Follows`, `Scan.Grows`.
Key theorems: `Scan.next_cases`, `Scan.Follows.absorb`, `Scan.Follows.takesBraces`,
`Scan.Follows.step_cases`, `Scan.Follows.run_keeps`.
-/
import Uncomment.Proofs.Braces

namespace Uncomment

open Text

/-! ### Trackers -/

/-- Whether a slash can open a regular expression after a sign. -/
def isRegexSign (c : Char) : Bool := Tracker.regexSigns.contains c

/-- Whether two trackers hold the same word, and signs that mean the same to a slash. -/
structure Tracker.Alike (t u : Tracker) : Prop where
  word : t.word = u.word
  sign : isRegexSign t.last = isRegexSign u.last

namespace Tracker.Alike

theorem refl (t : Tracker) : t.Alike t := ⟨rfl, rfl⟩

theorem canStartRegex {t u : Tracker} (h : t.Alike u) : t.canStartRegex = u.canStartRegex := by
  have hsign : regexSigns.contains t.last = regexSigns.contains u.last := h.sign
  simp only [Tracker.canStartRegex, h.word, hsign]

theorem clearWord {t u : Tracker} (h : t.Alike u) : t.clearWord.Alike u.clearWord :=
  ⟨rfl, h.sign⟩

theorem update {t u : Tracker} (h : t.Alike u) (c : Char) : (t.update c).Alike (u.update c) := by
  unfold Tracker.update
  rw [h.word]
  split_ifs
  · exact ⟨rfl, h.sign⟩
  · exact h
  · exact h
  · exact refl _

end Tracker.Alike

theorem update_of_spaceOrTab (t : Tracker) {c : Char} (h : isSpaceOrTab c = true) :
    t.update c = t := by
  rcases eq_of_isSpaceOrTab h with rfl | rfl
  · rw [Tracker.update, if_neg (by decide), if_pos (by decide)]
  · rw [Tracker.update, if_neg (by decide), if_pos (by decide)]

theorem update_brace (t : Tracker) {c : Char} (h : c = '{' ∨ c = '}') : t.update c = ⟨c, []⟩ := by
  rcases h with rfl | rfl
  · rw [Tracker.update, if_neg (by decide), if_neg (by decide)]
  · rw [Tracker.update, if_neg (by decide), if_neg (by decide)]

namespace Scan

/-! ### What the next lexeme depends on -/

/-- The next lexeme depends on the open frames and on what the tracker says of a slash. -/
theorem next_congr {s t : State} (hframes : s.frames = t.frames)
    (hregex : s.tracker.canStartRegex = t.tracker.canStartRegex) (c : Char) (cs : List Char) :
    next keepBraces s c cs = next keepBraces t c cs := by
  have hgo : ∀ ctx, s.bracesGo keepBraces ctx = t.bracesGo keepBraces ctx := fun ctx => by
    funext rest
    simp [State.bracesGo]
  simp only [next, nextCode, nextSlash, hframes, hregex, hgo]

/-- A comment is read in the same way whether or not braces go with it, unless it is closed and
stands alone. -/
theorem nextBlockComment_cases (alone : List Char → Bool) (cs : List Char) :
    nextBlockComment alone cs = nextBlockComment (fun _ => false) cs ∨
    ∃ body rest, alone rest = true ∧
      nextBlockComment (fun _ => false) cs = (.blockComment body true, rest) ∧
      nextBlockComment alone cs =
        cut ((rest.takeWhile isSpaceOrTab).length + 1) (.jsxComment body ·) rest := by
  by_cases h : (blockExtent 0 cs).closed = true ∧
      alone (cs.drop (blockExtent 0 cs).length) = true
  · refine Or.inr ⟨cs.take (blockExtent 0 cs).length, _, h.2, ?_, ?_⟩
    · simp [nextBlockComment, h.1]
    · simp [nextBlockComment, h.1, h.2]
  · left
    rw [← Bool.and_eq_true] at h
    simp [nextBlockComment, h]

/-- What stands before a closing brace across spaces and tabs. -/
theorem facesBrace_split {cs : List Char} (h : facesBrace cs = true) :
    ∃ rest, cs = cs.takeWhile isSpaceOrTab ++ '}' :: rest := by
  rw [facesBrace, beq_iff_eq, List.head?_eq_some_iff] at h
  obtain ⟨rest, hrest⟩ := h
  refine ⟨rest, ?_⟩
  rw [← hrest, List.takeWhile_append_dropWhile]

/-- A scan reads the same lexeme in code whether or not braces go, unless it is a comment alone
in braces at top level. -/
theorem nextCode_cases (o : ScanOptions) (s : State) (ctx : Context) (c : Char)
    (cs : List Char) :
    nextCode o s ctx c cs = nextCode keepBraces s ctx c cs ∨
    ∃ body blanks rest, ctx = .topLevel ∧ c = '/' ∧ followsBrace s.out = true ∧
      (∀ d ∈ blanks, isSpaceOrTab d = true) ∧
      nextCode o s ctx c cs = (.jsxComment body (blanks ++ ['}']), rest) ∧
      nextCode keepBraces s ctx c cs = (.blockComment body true, blanks ++ '}' :: rest) := by
  have hkeep : s.bracesGo keepBraces ctx = fun _ => false := by
    funext rest
    simp [State.bracesGo]
  unfold nextCode
  split_ifs with hquote htick hslash
  · exact Or.inl rfl
  · exact Or.inl rfl
  · unfold nextSlash
    split_ifs with hdir
    · exact Or.inl rfl
    · split
      · exact Or.inl rfl
      · next cs =>
        rw [hkeep]
        rcases nextBlockComment_cases (s.bracesGo o ctx) cs with h | ⟨body, rest, hgo, hplain, hjsx⟩
        · exact Or.inl h
        · right
          simp only [State.bracesGo, Bool.and_eq_true, beq_iff_eq] at hgo
          obtain ⟨rest', hrest⟩ := facesBrace_split hgo.2
          have hparts : rest = (rest.takeWhile isSpaceOrTab ++ ['}']) ++ rest' := by
            rw [List.append_assoc]
            exact hrest
          have hlen : (rest.takeWhile isSpaceOrTab).length + 1 =
              0 + (rest.takeWhile isSpaceOrTab ++ ['}']).length := by simp
          obtain ⟨htake, hdrop⟩ := take_drop_parts hparts hlen
          refine ⟨body, rest.takeWhile isSpaceOrTab, rest', hgo.1.1.1, hslash, hgo.1.2,
            fun d hd => List.mem_takeWhile_imp hd, ?_, ?_⟩
          · simp only [hjsx, cut, htake, hdrop]
          · rw [hplain, ← hrest]
      · exact Or.inl rfl
  · exact Or.inl rfl

/-- A scan reads the same lexeme whether or not braces go, unless it is a comment alone in
braces at top level. -/
theorem next_cases (o : ScanOptions) (s : State) (c : Char) (cs : List Char) :
    next o s c cs = next keepBraces s c cs ∨
    ∃ body blanks rest, s.frames = [] ∧ c = '/' ∧ followsBrace s.out = true ∧
      (∀ d ∈ blanks, isSpaceOrTab d = true) ∧
      next o s c cs = (.jsxComment body (blanks ++ ['}']), rest) ∧
      next keepBraces s c cs = (.blockComment body true, blanks ++ '}' :: rest) := by
  unfold next
  split
  · next h =>
    rcases nextCode_cases o s .topLevel c cs with hsame | ⟨body, blanks, rest, -, hjsx⟩
    · exact Or.inl hsame
    · exact Or.inr ⟨body, blanks, rest, h, hjsx⟩
  · exact Or.inl rfl
  · rcases nextCode_cases o s .interpolation c cs with hsame | ⟨_, _, _, hctx, -⟩
    · exact Or.inl hsame
    · simp at hctx

/-! ### Frames and pieces that are open -/

/-- Whether every interpolation is open inside a template. -/
def Grounded : List Frame → Prop
  | [] => True
  | .template _ :: frames => Grounded frames
  | .interpolation _ _ :: frames => frames ≠ [] ∧ Grounded frames

theorem grounded_countBrace (c : Char) {frames : List Frame} (h : Grounded frames) :
    Grounded (countBrace c frames) := by
  unfold countBrace
  split
  · split_ifs
    · exact h
    · exact h.2
    · exact h
    · exact h
  · exact h

theorem countBrace_ne_nil (c : Char) {frames : List Frame} (h : Grounded frames)
    (hne : frames ≠ []) : countBrace c frames ≠ [] := by
  unfold countBrace
  split
  · split_ifs
    · simp
    · exact h.1
    · simp
    · simp
  · exact hne

theorem frames_ne_nil {s : State} (h : s.reading.place = .template) : s.frames ≠ [] := by
  intro hnil
  rw [State.reading, hnil] at h
  exact Place.noConfusion h

/-- A lexeme that fits keeps interpolations inside templates. -/
theorem grounded_absorb {s : State} {l : Lexeme} {rest : List Char} (h : Grounded s.frames)
    (hfits : Fits s.reading l rest) : Grounded (absorb s l rest).frames := by
  cases hfits with
  | code => exact grounded_countBrace _ h
  | closeTemplate _ hplace =>
    have htail : Grounded s.frames.tail := by
      match hframes : s.frames with
      | [] => trivial
      | .template _ :: frames =>
        rw [hframes] at h
        exact h
      | .interpolation _ _ :: frames =>
        rw [hframes] at h
        exact h.2
    exact htail
  | openInterpolation _ hplace => exact ⟨frames_ne_nil hplace, h⟩
  | _ => exact h

/-- Whether the text goes on with something else than a line feed. -/
def GoesOn (cs : List Char) : Prop := ∃ c ds, cs = c :: ds ∧ c ≠ '\n'

/-- What a removal relies on at top level: the end of the pieces is loose, and where an opening
brace ends what was written, a slash can open a regular expression. -/
structure Poised (s : State) (ps : List Piece) : Prop where
  loose : Loose ps
  sign : followsBrace s.out = true → isRegexSign s.tracker.last = true

theorem followsBrace_of_stops {cs : List Char} (h : Stops cs) (out : List Char) :
    followsBrace (cs.reverse ++ out) = false := by
  obtain ⟨front, c, rfl, hblank, hbrace⟩ := h
  simp [followsBrace, hblank, hbrace]

theorem poised_of_stops {s : State} {ps : List Piece} {p : Piece} {out : List Char}
    (h : Stops p.leaves) (hout : s.out = p.leaves.reverse ++ out) : Poised s (ps ++ [p]) := by
  refine ⟨.stop h, fun hbrace => ?_⟩
  rw [hout, followsBrace_of_stops h] at hbrace
  simp at hbrace

/-! ### Lexemes that stop the search for a brace -/

theorem stops_of_quoted {quote : Char} {body ending rest : List Char} {closed : Bool}
    (hquote : isQuote quote = true) (hend : QuotedEnd quote closed ending rest)
    (hrest : GoesOn rest) : Stops (Lexeme.quoted quote (body ++ ending) closed).leaves := by
  obtain ⟨_, _, rfl, -⟩ := hrest
  cases hend with
  | quote =>
    refine ⟨quote :: body, quote, rfl, ?_⟩
    rcases (by simpa [isQuote] using hquote : quote = '\x22' ∨ quote = '\x27') with rfl | rfl
    · decide
    · decide
  | feed => exact ⟨quote :: body, '\n', rfl, by decide, by decide⟩

theorem alphabetic_stops {c : Char} (h : isAlphabetic c = true) :
    isSpaceOrTab c = false ∧ c ≠ '{' := by
  constructor
  · rw [Bool.eq_false_iff]
    intro hblank
    rcases eq_of_isSpaceOrTab hblank with rfl | rfl
    · exact absurd h (by decide)
    · exact absurd h (by decide)
  · rintro rfl
    exact absurd h (by decide)

theorem stops_of_regex {body ending rest : List Char} {closed inClass : Bool}
    (hend : RegexEnd inClass closed ending rest) (hrest : GoesOn rest) :
    Stops (Lexeme.regex (body ++ ending) closed).leaves := by
  obtain ⟨c, ds, rfl, hfeed⟩ := hrest
  cases hend with
  | @slash flags _ hflags =>
    rcases List.eq_nil_or_concat flags with rfl | ⟨front, c, rfl⟩
    · exact ⟨'/' :: body, '/', rfl, by decide, by decide⟩
    · refine ⟨'/' :: body ++ '/' :: front, c, ?_, alphabetic_stops (hflags c (by simp))⟩
      simp [Lexeme.leaves, Lexeme.text]
  | feed => exact absurd rfl hfeed

theorem stops_of_lineComment {body ending rest : List Char} (hend : LineEnd body ending rest)
    (hrest : GoesOn rest) : Stops (Lexeme.lineComment body ending).leaves := by
  obtain ⟨_, _, rfl, -⟩ := hrest
  cases hend with
  | feed => exact ⟨[], '\n', rfl, by decide, by decide⟩
  | crlf => exact ⟨['\r'], '\n', rfl, by decide, by decide⟩

theorem stops_of_directive {line rest : List Char} (hline : FullLine line rest)
    (hrest : GoesOn rest) : Stops (Lexeme.directive line).leaves := by
  obtain ⟨_, _, rfl, -⟩ := hrest
  cases hline with
  | feed line => exact ⟨line, '\n', rfl, by decide, by decide⟩

theorem Fits.jsxComments_counts {r : Reading} {l : Lexeme} {rest : List Char}
    (h : Fits r l rest) : l.counts.jsxComments = 0 := by
  cases h <;> rfl

/-- A character of code at top level leaves the scan poised. -/
theorem poised_code {s : State} {ps : List Piece} {c : Char} {rest : List Char}
    (hrest : s.rest = c :: rest) (h : GoesOn s.rest → Poised s ps) :
    Poised (absorb s (.code c) rest) (ps ++ [.top c]) := by
  by_cases hfeed : c = '\n'
  · subst hfeed
    exact poised_of_stops ⟨[], '\n', rfl, by decide, by decide⟩ rfl
  have hpoised := h ⟨c, rest, hrest, hfeed⟩
  refine ⟨.code c hpoised.loose, fun hbrace => ?_⟩
  have hout : (absorb s (.code c) rest).out = c :: s.out := rfl
  have htracker : (absorb s (.code c) rest).tracker = s.tracker.update c := rfl
  rw [hout] at hbrace
  rw [htracker]
  by_cases hblank : isSpaceOrTab c = true
  · rw [update_of_spaceOrTab _ hblank]
    exact hpoised.sign (by simpa [followsBrace, hblank] using hbrace)
  · obtain rfl : c = '{' := by simpa [followsBrace, hblank] using hbrace
    rw [update_brace _ (Or.inl rfl)]
    decide

/-- Line feeds end no brace. -/
theorem followsBrace_of_feeds {body out : List Char} (h : followsBrace (feeds body ++ out) = true) :
    followsBrace out = true := by
  by_cases hfeeds : body.count '\n' = 0
  · simpa [feeds_eq, hfeeds] using h
  · have hstops := followsBrace_of_stops (stops_of_feeds hfeeds) out
    rw [List.reverse_replicate, ← feeds_eq, h] at hstops
    simp at hstops

/-- A lexeme that fits leaves the scan poised whenever it is at top level and goes on. -/
theorem poised_absorb {s : State} {ps : List Piece} {r : Reading} {l : Lexeme}
    {rest : List Char} (hplace : r.place = s.reading.place) (hground : Grounded s.frames)
    (hrest : s.rest = l.text ++ rest) (h : s.frames = [] → GoesOn s.rest → Poised s ps)
    (hfits : Fits r l rest) (hframes : (absorb s l rest).frames = []) (hgoes : GoesOn rest) :
    Poised (absorb s l rest) (ps ++ [⟨r.place, l, false⟩]) := by
  have hout := out_absorb s hfits
  cases hfits with
  | @code c =>
    have hnil : s.frames = [] := by
      by_contra hne
      exact countBrace_ne_nil c hground hne hframes
    have htop : r.place = .topLevel := by rw [hplace, State.reading, hnil]; rfl
    rw [htop]
    exact poised_code hrest (h hnil)
  | quoted _ hquote _ hend => exact poised_of_stops (stops_of_quoted hquote hend hgoes) hout
  | regex _ _ _ _ hend => exact poised_of_stops (stops_of_regex hend hgoes) hout
  | openTemplate => simp [absorb] at hframes
  | escape _ _ htemplate => exact absurd hframes (frames_ne_nil (hplace ▸ htemplate))
  | backslash htemplate => exact absurd hframes (frames_ne_nil (hplace ▸ htemplate))
  | templateText htemplate => exact absurd hframes (frames_ne_nil (hplace ▸ htemplate))
  | closeTemplate => exact poised_of_stops ⟨[], backtick, rfl, by decide, by decide⟩ hout
  | openInterpolation => simp [absorb] at hframes
  | directive _ _ hline => exact poised_of_stops (stops_of_directive hline hgoes) hout
  | lineComment _ _ hend => exact poised_of_stops (stops_of_lineComment hend hgoes) hout
  | blockComment =>
    have hpoised := h hframes ⟨_, _, hrest, by decide⟩
    exact ⟨hpoised.loose.blockComment _ _ _, fun hbrace =>
      hpoised.sign (followsBrace_of_feeds hbrace)⟩

/-! ### Following -/

/-- The counts of a scan that keeps braces: a comment that would take them counts as any other
block comment. -/
def mergedStats (stats : Stats) : Stats :=
  { stats with blockComments := stats.blockComments + stats.jsxComments, jsxComments := 0 }

/-- Whether a scan at `t`, which keeps braces, follows one at `s` whose pieces so far are
`ps`. -/
structure Follows (s t : State) (ps : List Piece) : Prop where
  rest : s.rest = t.rest
  pos : s.pos = t.pos
  frames : s.frames = t.frames
  faults : s.faults = t.faults
  tracker : s.tracker.Alike t.tracker
  out : s.out = (leavesOf ps).reverse
  stats : t.stats = mergedStats s.stats
  grounded : Grounded s.frames
  poised : s.frames = [] → GoesOn s.rest → Poised s ps

theorem mergedStats_add {stats counts : Stats} (h : counts.jsxComments = 0) :
    mergedStats stats + counts = mergedStats (stats + counts) := by
  simp only [mergedStats, Stats.add_def, h, Stats.mk.injEq, true_and, and_true, Nat.add_zero]
  omega

theorem pos_absorb (s : State) (l : Lexeme) (rest : List Char) :
    (absorb s l rest).pos = s.pos + byteSize l.text := by
  cases l <;> rfl

theorem frames_absorb_congr {s t : State} (hframes : s.frames = t.frames) (hpos : s.pos = t.pos)
    (l : Lexeme) (rest : List Char) : (absorb s l rest).frames = (absorb t l rest).frames := by
  cases l <;> simp only [absorb, hframes, hpos]

/-- One lexeme read by both. -/
theorem Follows.absorb {s t : State} {ps : List Piece} (h : Follows s t ps) {l : Lexeme}
    {rest : List Char} (hrest : s.rest = l.text ++ rest) (hfits : Fits t.reading l rest) :
    Follows (absorb s l rest) (absorb t l rest) (ps ++ [⟨t.reading.place, l, false⟩]) where
  rest := by simp
  pos := by rw [pos_absorb, pos_absorb, h.pos]
  frames := frames_absorb_congr h.frames h.pos l rest
  faults := by cases l <;> simp only [Scan.absorb, State.note, h.faults, h.pos]
  tracker := by
    cases l with
    | code c => exact h.tracker.update c
    | openTemplate => exact h.tracker
    | templateText => exact h.tracker
    | openInterpolation => exact h.tracker
    | blockComment => exact h.tracker.clearWord
    | jsxComment => exact h.tracker.clearWord
    | _ => exact .refl _
  out := by
    rw [out_absorb s hfits, h.out]
    simp [Piece.leaves]
  stats := by
    rw [stats_absorb, stats_absorb, h.stats, mergedStats_add hfits.jsxComments_counts]
  grounded := by
    rw [frames_absorb_congr h.frames h.pos]
    exact grounded_absorb (h.frames ▸ h.grounded) hfits
  poised := by
    rw [absorb_rest]
    have hplace : t.reading.place = s.reading.place := by
      simp only [Reading.place, State.reading, h.frames]
    exact poised_absorb hplace h.grounded hrest h.poised hfits

/-! ### A removal -/

/-- In code, a character that opens nothing is read alone. -/
theorem next_code (o : ScanOptions) {s : State} {c : Char} (hplace : s.reading.place ≠ .template)
    (hquote : isQuote c = false) (htick : c ≠ backtick) (hslash : c ≠ '/') (cs : List Char) :
    next o s c cs = (.code c, cs) := by
  obtain ⟨ctx, -, hnext⟩ := next_eq_nextCode hplace
  simp [hnext, nextCode, hquote, htick, hslash]

theorem place_topLevel {s : State} (h : s.frames = []) : s.reading.place = .topLevel := by
  rw [State.reading, h]
  rfl

/-- At top level, a character that opens nothing is a piece of its own. -/
theorem reads_code {t : State} {c : Char} {cs : List Char} (hframes : t.frames = [])
    (hrest : t.rest = c :: cs) (hquote : isQuote c = false) (htick : c ≠ backtick)
    (hslash : c ≠ '/') :
    pieces keepBraces t = .top c :: pieces keepBraces (absorb t (.code c) cs) ∧
    run keepBraces t = run keepBraces (absorb t (.code c) cs) := by
  have htop := place_topLevel hframes
  have hnext : next keepBraces t c cs = (.code c, cs) :=
    next_code _ (by simp [htop]) hquote htick hslash cs
  rw [pieces_cons _ hrest, run_cons _ hrest, step, hnext, htop]
  exact ⟨rfl, rfl⟩

/-- The state after spaces, tabs and a closing brace that are read as code at top level. -/
def State.pastBrace (t : State) (blanks rest : List Char) : State :=
  { t with
    rest
    pos := t.pos + byteSize (blanks ++ ['}'])
    out := '}' :: (blanks.reverse ++ t.out)
    tracker := ⟨'}', []⟩ }

/-- Spaces, tabs and a closing brace at top level are read as code, one by one. -/
theorem reads_blanks (rest : List Char) : ∀ (blanks : List Char) (t : State), t.frames = [] →
    t.rest = blanks ++ '}' :: rest → (∀ c ∈ blanks, isSpaceOrTab c = true) →
    pieces keepBraces t =
      blanks.map Piece.top ++ .top '}' :: pieces keepBraces (t.pastBrace blanks rest) ∧
    run keepBraces t = run keepBraces (t.pastBrace blanks rest)
  | [], t, hframes, hrest, _ => by
    have hread := reads_code hframes hrest rfl (by decide) (by decide)
    have hstate : absorb t (.code '}') rest = t.pastBrace [] rest := by
      simp [absorb, State.pastBrace, Lexeme.text, update_brace, hframes, countBrace]
    rwa [hstate] at hread
  | c :: blanks, t, hframes, hrest, hblanks => by
    have hc := hblanks c (by simp)
    have hopens : isQuote c = false ∧ c ≠ backtick ∧ c ≠ '/' := by
      rcases eq_of_isSpaceOrTab hc with rfl | rfl
      · decide
      · decide
    rw [List.cons_append] at hrest
    obtain ⟨hpieces, hrun⟩ := reads_code hframes hrest hopens.1 hopens.2.1 hopens.2.2
    have hframes' : (absorb t (.code c) (blanks ++ '}' :: rest)).frames = [] := by
      simp [absorb, hframes, countBrace]
    have hstate : (absorb t (.code c) (blanks ++ '}' :: rest)).pastBrace blanks rest =
        t.pastBrace (c :: blanks) rest := by
      simp [absorb, State.pastBrace, Lexeme.text, hframes, countBrace, Nat.add_assoc]
    obtain ⟨ihpieces, ihrun⟩ := reads_blanks rest blanks _ hframes' (absorb_rest ..)
      (fun d hd => hblanks d (by simp [hd]))
    rw [hstate] at ihpieces ihrun
    exact ⟨by rw [hpieces, ihpieces]; rfl, by rw [hrun, ihrun]⟩

/-- A space or tab is one as a piece of code at top level. -/
theorem isBlank_of_map {blanks : List Char} (h : ∀ c ∈ blanks, isSpaceOrTab c = true) :
    ∀ p ∈ blanks.map Piece.top, p.IsBlank := by
  intro p hp
  obtain ⟨c, hc, rfl⟩ := List.mem_map.mp hp
  exact ⟨c, h c hc, rfl⟩

/-- **A comment that takes its braces away, followed.** The scan that keeps braces reads the
comment and, as code, what goes with it; afterwards it follows again, and what the other scan
has undone is erased from the pieces. -/
theorem Follows.takesBraces {s t : State} {ps : List Piece} (h : Follows s t ps)
    (hframes : s.frames = []) (hgoes : GoesOn s.rest) (hbrace : followsBrace s.out = true)
    (body : List Char) {blanks : List Char} (hblanks : ∀ c ∈ blanks, isSpaceOrTab c = true)
    (rest : List Char) :
    ∃ qs, Follows (Scan.absorb s (.jsxComment body (blanks ++ ['}'])) rest)
        ((Scan.absorb t (.blockComment body true) (blanks ++ '}' :: rest)).pastBrace blanks rest)
        qs ∧
      TakesBraces body (blanks.map Piece.top) ps qs := by
  have hpoised := h.poised hframes hgoes
  have hidle : ∀ p ∈ blanks.map Piece.top, p.Idle :=
    fun p hp => Or.inr (isBlank_of_map hblanks p hp)
  have hout := h.out
  obtain ⟨before, gap, gap', rfl, hgap, hgap', hloose, hsolid, hdrop⟩ :=
    hpoised.loose.split (hout ▸ hbrace)
  have hspan := leavesOf_strike_bracedSpan body hgap hgap' hidle
  refine ⟨before ++ (bracedSpan gap gap' body (blanks.map Piece.top)).map Piece.strike, ?_,
    .intro hsolid hgap hgap'⟩
  exact {
    rest := rfl
    pos := by
      rw [pos_absorb, h.pos]
      simp [State.pastBrace, pos_absorb, Lexeme.text, Nat.add_assoc]
    frames := h.frames
    faults := h.faults
    tracker := ⟨rfl, (hpoised.sign hbrace).trans (by decide : true = isRegexSign '}')⟩
    out := by
      have hwritten : (Scan.absorb s (.jsxComment body (blanks ++ ['}'])) rest).out =
          feeds body ++ dropBrace s.out := rfl
      rw [hwritten, hout, hdrop, feeds_eq, leavesOf_append, hspan]
      simp
    stats := by
      have hcount : (Scan.absorb s (.jsxComment body (blanks ++ ['}'])) rest).stats =
          s.stats + { jsxComments := 1 } := stats_absorb ..
      have hcount' : (Scan.absorb t (.blockComment body true) (blanks ++ '}' :: rest)).stats =
          t.stats + { blockComments := 1 } := stats_absorb ..
      rw [State.pastBrace, hcount, hcount', h.stats]
      simp [mergedStats, Stats.add_def, Nat.add_assoc]
    grounded := h.grounded
    poised := fun _ _ =>
      ⟨hloose.strike_bracedSpan body hgap hgap' hidle, fun _ => hpoised.sign hbrace⟩ }

/-- **What a step can do to scans that follow each other.** Both read the same lexeme, or one reads
a comment with its braces, and the other the comment and then, as code, what goes with it, which is
then erased. -/
theorem Follows.step_cases {o : ScanOptions} {s t : State} {ps : List Piece} (h : Follows s t ps)
    {c : Char} {cs : List Char} (hrest : s.rest = c :: cs) :
    (next o s c cs = next keepBraces t c cs ∧
      Follows (step o s c cs) (step keepBraces t c cs)
        (ps ++ [⟨t.reading.place, (next keepBraces t c cs).1, false⟩])) ∨
    ∃ body blanks rest t' qs, (∀ d ∈ blanks, isSpaceOrTab d = true) ∧
      next o s c cs = (.jsxComment body (blanks ++ ['}']), rest) ∧
      pieces keepBraces t =
        .comment body :: (blanks.map Piece.top ++ .top '}' :: pieces keepBraces t') ∧
      run keepBraces t = run keepBraces t' ∧ Follows (step o s c cs) t' qs ∧
      TakesBraces body (blanks.map Piece.top) ps qs := by
  have hrest' : t.rest = c :: cs := h.rest ▸ hrest
  have hsame := next_congr h.frames h.tracker.canStartRegex c cs
  rcases next_cases o s c cs with
    hnext | ⟨body, blanks, rest, hframes, hc, hbrace, hblanks, hjsx, hplain⟩
  · left
    have hstep : Scan.step o s c cs =
        Scan.absorb s (next keepBraces t c cs).1 (next keepBraces t c cs).2 := by
      rw [Scan.step, hnext, hsame]
    have hnow := h.absorb (hrest.trans (next_append keepBraces t c cs).symm) (fits_next t c cs)
    rw [← hstep] at hnow
    exact ⟨hnext.trans hsame, hnow⟩
  · right
    have hstep : Scan.step o s c cs =
        Scan.absorb s (.jsxComment body (blanks ++ ['}'])) rest := by
      rw [Scan.step, hjsx]
    have hstep' : Scan.step keepBraces t c cs =
        Scan.absorb t (.blockComment body true) (blanks ++ '}' :: rest) := by
      rw [Scan.step, ← hsame, hplain]
    have hgoes : GoesOn s.rest := ⟨c, cs, hrest, by rw [hc]; decide⟩
    have hframes' : t.frames = [] := h.frames ▸ hframes
    obtain ⟨qs, hnow, htakes⟩ := h.takesBraces hframes hgoes hbrace body hblanks rest
    rw [← hstep, ← hstep'] at hnow
    obtain ⟨hpieces, hrun⟩ := reads_blanks rest blanks (Scan.step keepBraces t c cs)
      (hstep' ▸ hframes') (hstep' ▸ rfl) hblanks
    refine ⟨body, blanks, rest, _, qs, hblanks, hjsx, ?_, ?_, hnow, htakes⟩
    · rw [pieces_cons _ hrest', hpieces, ← hsame, hplain, place_topLevel hframes']
      rfl
    · rw [run_cons _ hrest', hrun]

/-- How the pieces that were read grow in a step: by the lexeme that both scans read, or by what
becomes of them when a comment takes its braces along. -/
inductive Grows (o : ScanOptions) (s t : State) (c : Char) (cs : List Char) (ps : List Piece) :
    List Piece → Prop where
  | read : next o s c cs = next keepBraces t c cs →
      Grows o s t c cs ps (ps ++ [⟨t.reading.place, (next keepBraces t c cs).1, false⟩])
  | taken {body blanks : List Char} {qs : List Piece} : (∀ d ∈ blanks, isSpaceOrTab d = true) →
      TakesBraces body (blanks.map Piece.top) ps qs → Grows o s t c cs ps qs

/-- **One step of a scan that may take braces away, followed.** The scan that keeps braces takes
one or more steps, and what is undone on the way is a removal or nothing. -/
theorem Follows.step {o : ScanOptions} {s t : State} {ps : List Piece} (h : Follows s t ps)
    {c : Char} {cs : List Char} (hrest : s.rest = c :: cs) :
    ∃ n t' qs, Follows (step o s c cs) t' qs ∧ run keepBraces t = run keepBraces t' ∧
      Repeated Removal n (ps ++ pieces keepBraces t) (qs ++ pieces keepBraces t') ∧
      (Scan.step o s c cs).stats.jsxComments = s.stats.jsxComments + n ∧
      Grows o s t c cs ps qs := by
  have hrest' : t.rest = c :: cs := h.rest ▸ hrest
  have hstats : (Scan.step o s c cs).stats = s.stats + (next o s c cs).1.counts := stats_absorb ..
  rcases h.step_cases (o := o) hrest with
    ⟨hnext, hnow⟩ | ⟨body, blanks, rest, t', qs, hblanks, hjsx, hpieces, hrun, hnow, htakes⟩
  · refine ⟨0, Scan.step keepBraces t c cs, _, hnow, run_cons _ hrest', ?_, ?_, .read hnext⟩
    · rw [pieces_cons _ hrest', List.append_assoc]
      exact .refl _
    · rw [hstats, hnext, Stats.add_def, (fits_next t c cs).jsxComments_counts]
  · have hremoval := htakes.removal (isBlank_of_map hblanks) (pieces keepBraces t')
    rw [← hpieces] at hremoval
    refine ⟨1, t', qs, hnow, hrun, .head hremoval (.refl _), ?_, .taken hblanks htakes⟩
    rw [hstats, hjsx]
    rfl

/-- **A scan that may take braces away, followed to its end.** What it has written is what the
pieces of the scan that keeps them leave after as many removals as it has counted, and what holds
of its states and of the pieces as they grow holds at the end. -/
theorem Follows.run_keeps {o : ScanOptions} {P : State → List Piece → Prop}
    (hP : ∀ {s t c cs ps qs}, Follows s t ps → s.rest = c :: cs → Grows o s t c cs ps qs →
      P s ps → P (Scan.step o s c cs) qs)
    {s t : State} {ps : List Piece} (h : Follows s t ps) (hs : P s ps) :
    ∃ n qs, Follows (run o s) (run keepBraces t) qs ∧
      Repeated Removal n (ps ++ pieces keepBraces t) qs ∧
      (Scan.run o s).stats.jsxComments = s.stats.jsxComments + n ∧ P (Scan.run o s) qs := by
  induction s using scan_induction o generalizing t ps with
  | hnil s hrest =>
    have hrest' : t.rest = [] := h.rest ▸ hrest
    rw [run_nil _ hrest, run_nil _ hrest', pieces_nil _ hrest', List.append_nil]
    exact ⟨0, ps, h, .refl ps, rfl, hs⟩
  | hcons s c cs hrest ih =>
    obtain ⟨n, t', qs, hnow, hrun, hfirst, hcount, hgrows⟩ := h.step hrest
    obtain ⟨m, qs', hlast, hthen, hcount', hend⟩ := ih hnow (hP h hrest hgrows hs)
    rw [run_cons o hrest, hrun]
    refine ⟨n + m, qs', hlast, hfirst.trans hthen, ?_, hend⟩
    rw [hcount', hcount, Nat.add_assoc]

/-- What a scan that may take braces away has written at its end is what the pieces of the scan that
keeps them leave after as many removals as it has counted. -/
theorem Follows.run {o : ScanOptions} {s t : State} {ps : List Piece} (h : Follows s t ps) :
    ∃ n qs, Follows (run o s) (run keepBraces t) qs ∧
      Repeated Removal n (ps ++ pieces keepBraces t) qs ∧
      (Scan.run o s).stats.jsxComments = s.stats.jsxComments + n := by
  obtain ⟨n, qs, hfollows, hremovals, hcount, -⟩ :=
    h.run_keeps (P := fun _ _ => True) (fun _ _ _ _ => trivial) trivial
  exact ⟨n, qs, hfollows, hremovals, hcount⟩

/-! ### Whole scans -/

theorem follows_start (cs : List Char) : Follows { rest := cs } { rest := cs } [] where
  rest := rfl
  pos := rfl
  frames := rfl
  faults := rfl
  tracker := .refl _
  out := rfl
  stats := rfl
  grounded := trivial
  poised := fun _ _ => ⟨.nil, fun h => by simp [followsBrace] at h⟩

/-- What a scan of a text writes is what the pieces of the text leave after as many removals as
it counts. -/
theorem exists_removals (o : ScanOptions) (cs : List Char) :
    ∃ ps, Follows (run o { rest := cs }) (run keepBraces { rest := cs }) ps ∧
      Repeated Removal (run o { rest := cs }).stats.jsxComments
        (pieces keepBraces { rest := cs }) ps := by
  obtain ⟨n, ps, hfollows, hrepeat, hcount⟩ := (follows_start cs).run (o := o)
  have hn : (run o { rest := cs }).stats.jsxComments = n := hcount.trans (Nat.zero_add n)
  exact ⟨ps, hfollows, hn ▸ hrepeat⟩

/-- A scan that keeps braces removes none. -/
theorem jsxComments_keepBraces (cs : List Char) :
    (run keepBraces { rest := cs }).stats.jsxComments = 0 := by
  obtain ⟨ps, hfollows, -⟩ := exists_removals keepBraces cs
  rw [hfollows.stats]
  rfl

theorem restored_pieces (o : ScanOptions) (s : State) :
    (pieces o s).map Piece.restored = pieces o s := by
  induction s using scan_induction o with
  | hnil s h => rw [pieces_nil o h, List.map_nil]
  | hcons s c cs h ih =>
    rw [pieces_cons o h, List.map_cons, ih]
    rfl

theorem sound_pieces (o : ScanOptions) (s : State) : ∀ p ∈ pieces o s, p.Sound := by
  intro p hp herased
  rw [← restored_pieces o s] at hp
  obtain ⟨q, -, rfl⟩ := List.mem_map.mp hp
  simp [Piece.restored] at herased

theorem restored_of_removals {n : Nat} {ps qs : List Piece} (h : Repeated Removal n ps qs) :
    qs.map Piece.restored = ps.map Piece.restored := by
  induction h with
  | refl ps => rfl
  | head hstep _ ih => rw [ih, hstep.restored]

/-- After removals, the pieces of a text are still that: they cover it, each fits its kind, and
what is erased is code at top level. -/
theorem pieces_of_removals {n : Nat} {cs : List Char} {ps : List Piece}
    (h : Repeated Removal n (pieces keepBraces { rest := cs }) ps) :
    textOf ps = cs ∧ Lexed {} ps ∧ (∀ p ∈ ps, p.Sound) ∧
      ps.map Piece.restored = pieces keepBraces { rest := cs } := by
  have hrestored := restored_of_removals h
  refine ⟨?_, ?_, ?_, ?_⟩
  · rw [textOf_eq_of_restored hrestored, text_pieces]
  · exact (lexed_pieces { rest := cs }).of_restored hrestored.symm
  · exact h.keeps (fun _ _ hstep => hstep.sound) (sound_pieces _ _)
  · rw [hrestored, restored_pieces]

end Scan

end Uncomment
