/-
# A text can be cut in one way only

The descriptions of the kinds of lexeme leave no choice: a lexeme that fits at a place, together
with what follows it, is the one that is read there (`next_of_fits`). So there is only one way
to cut a text into pieces that fit (`Lexed.unique`), and to find out what a scan does with a
text it is enough to know some pieces of it that fit.

Key theorems: `Scan.next_of_fits`, `Scan.Lexed.unique`.
-/
import Uncomment.Proofs.Pieces

namespace Uncomment

open Text

/-! ### Extents -/

theorem extent_cons (n : Nat) (c : Char) (cs : List Char) (closed : Bool) :
    Extent.mk (n + 1 + cs.length) closed = ⟨n + (c :: cs).length, closed⟩ := by
  rw [add_length_cons n c]

theorem quotedExtent_of_parts {quote : Char} {body ending rest : List Char} {closed : Bool}
    (hquote : isQuote quote = true) (hbody : QuotedBody quote body)
    (hend : QuotedEnd quote closed ending rest) : ∀ n,
    quotedExtent quote n (body ++ (ending ++ rest)) = ⟨n + (body ++ ending).length, closed⟩ := by
  have hne : quote ≠ '\\' ∧ quote ≠ '\n' := by
    rcases (by simpa [isQuote] using hquote : quote = '\x22' ∨ quote = '\x27') with rfl | rfl
    · decide
    · decide
  induction hbody with
  | nil =>
    intro n
    cases hend with
    | quote => simp [quotedExtent, hne.1]
    | feed => simp [quotedExtent, Ne.symm hne.2]
    | stop => rfl
    | backslash => simp [quotedExtent, Ne.symm hne.1]
  | escape c _ ih =>
    intro n
    rw [List.cons_append, List.cons_append, quotedExtent, ih]
    exact (extent_cons (n + 1) c _ _).trans (extent_cons n '\\' _ _)
  | plain hquote hesc hfeed _ ih =>
    intro n
    rw [List.cons_append, quotedExtent]
    · rw [if_neg hquote, if_neg hfeed, ih]
      exact extent_cons n _ _ _
    · exact fun _ _ h => absurd h hesc

theorem takeWhile_flags {flags rest : List Char} (hflags : ∀ c ∈ flags, isAlphabetic c)
    (hrest : ∀ c ∈ rest.head?, ¬ isAlphabetic c) :
    (flags ++ rest).takeWhile isAlphabetic = flags := by
  rw [List.takeWhile_append_of_pos hflags]
  cases rest with
  | nil => simp
  | cons c cs => simp [hrest c rfl]

theorem regexExtent_of_parts {body ending rest : List Char} {closed start stop : Bool}
    (hbody : RegexBody start body stop) (hend : RegexEnd stop closed ending rest) : ∀ n,
    regexExtent start n (body ++ (ending ++ rest)) = ⟨n + (body ++ ending).length, closed⟩ := by
  induction hbody with
  | nil inClass =>
    intro n
    cases hend with
    | slash hflags hrest =>
      rw [List.nil_append, List.cons_append, regexExtent]
      · rw [if_neg (by simp), if_neg (by simp), if_pos (by simp), takeWhile_flags hflags hrest]
        exact extent_cons n '/' _ _
      · exact fun _ _ h => absurd h (by decide)
    | feed => simp [regexExtent]
    | stop => rfl
    | backslash => simp [regexExtent]
  | escape c _ ih =>
    intro n
    rw [List.cons_append, List.cons_append, regexExtent, ih hend]
    exact (extent_cons (n + 1) c _ _).trans (extent_cons n '\\' _ _)
  | openClass _ ih =>
    intro n
    rw [List.cons_append, regexExtent]
    · rw [if_pos (by simp), ih hend]
      exact extent_cons n _ _ _
    · exact fun _ _ h => absurd h (by decide)
  | closeClass _ ih =>
    intro n
    rw [List.cons_append, regexExtent]
    · rw [if_neg (by simp), if_pos (by simp), ih hend]
      exact extent_cons n _ _ _
    · exact fun _ _ h => absurd h (by decide)
  | inside hesc hfeed hclose _ ih =>
    intro n
    rw [List.cons_append, regexExtent]
    · rw [if_neg (by simp), if_neg (by simp [hclose]), if_neg (by simp), if_neg hfeed, ih hend]
      exact extent_cons n _ _ _
    · exact fun _ _ h => absurd h hesc
  | outside hesc hfeed hopen hslash _ ih =>
    intro n
    rw [List.cons_append, regexExtent]
    · rw [if_neg (by simp [hopen]), if_neg (by simp), if_neg (by simp [hslash]), if_neg hfeed,
        ih hend]
      exact extent_cons n _ _ _
    · exact fun _ _ h => absurd h hesc

/-- A character that no closing delimiter starts with is passed over. -/
theorem blockExtent_cons {c : Char} {cs : List Char} (h : ¬ ['*', '/'] <+: c :: cs) (n : Nat) :
    blockExtent n (c :: cs) = blockExtent (n + 1) cs := by
  rw [blockExtent]
  rintro ds rfl rfl
  exact h ⟨ds, rfl⟩

theorem blockExtent_of_parts {body rest : List Char} {closed : Bool}
    (h : BlockBody closed body rest) (n : Nat) :
    blockExtent n (body ++ rest) = ⟨n + body.length, closed⟩ := by
  cases h with
  | closed inner _ hinner =>
    induction inner generalizing n with
    | nil => simp [blockExtent]
    | cons c inner ih =>
      have hfirst : ¬ ['*', '/'] <+: c :: (inner ++ ['*', '/'] ++ rest) := by
        intro hclose
        have hfront : c :: inner ++ ['*'] <+: c :: (inner ++ ['*', '/'] ++ rest) :=
          ⟨'/' :: rest, by simp⟩
        exact hinner (List.prefix_of_prefix_length_le hclose hfront (by simp)).isInfix
      have hinner' : ¬ ['*', '/'] <:+: inner ++ ['*'] := fun h => hinner (List.infix_cons h)
      rw [List.cons_append, List.cons_append, blockExtent_cons hfirst, ih (n + 1) hinner']
      exact extent_cons n c _ _
  | stop hbody =>
    induction body generalizing n with
    | nil => rfl
    | cons c body ih =>
      rw [List.append_nil] at ih ⊢
      rw [List.infix_cons_iff, not_or] at hbody
      rw [blockExtent_cons hbody.1, ih (n + 1) hbody.2]
      exact extent_cons n c _ _

theorem lineExtent_of_parts {line rest : List Char} (h : FullLine line rest) (n : Nat) :
    (lineExtent n (line ++ rest)).length = n + line.length := by
  cases h with
  | feed line _ hline =>
    induction line generalizing n with
    | nil => simp [lineExtent]
    | cons c line ih =>
      rw [List.mem_cons, not_or] at hline
      rw [List.cons_append, List.cons_append, lineExtent, if_neg (Ne.symm hline.1),
        ih (n + 1) hline.2]
      exact add_length_cons n c _
  | stop hline =>
    induction line generalizing n with
    | nil => rfl
    | cons c line ih =>
      rw [List.mem_cons, not_or] at hline
      rw [List.cons_append, lineExtent, if_neg (Ne.symm hline.1), ih (n + 1) hline.2]
      exact add_length_cons n c _

namespace Scan

/-! ### Readers -/

theorem cut_append {n : Nat} {front : List Char} (make : List Char → Lexeme) (rest : List Char)
    (hn : n = 0 + front.length) : cut n make (front ++ rest) = (make front, rest) := by
  obtain ⟨htake, hdrop⟩ := take_drop_parts rfl hn
  rw [cut, htake, hdrop]

theorem eq_of_singleton_append {a c : Char} {rest cs : List Char} (h : [a] ++ rest = c :: cs) :
    a = c ∧ rest = cs := List.cons.inj h

theorem nextQuoted_of_parts {quote : Char} {body ending rest : List Char} {closed : Bool}
    (hquote : isQuote quote = true) (hbody : QuotedBody quote body)
    (hend : QuotedEnd quote closed ending rest) :
    nextQuoted quote (body ++ ending ++ rest) = (.quoted quote (body ++ ending) closed, rest) := by
  have hextent := quotedExtent_of_parts hquote hbody hend 0
  rw [← List.append_assoc] at hextent
  simp only [nextQuoted, hextent]
  exact cut_append _ rest rfl

theorem nextRegex_of_parts {body ending rest : List Char} {closed inClass : Bool}
    (hbody : RegexBody false body inClass) (hend : RegexEnd inClass closed ending rest) :
    nextRegex (body ++ ending ++ rest) = (.regex (body ++ ending) closed, rest) := by
  have hextent := regexExtent_of_parts hbody hend 0
  rw [← List.append_assoc] at hextent
  simp only [nextRegex, hextent]
  exact cut_append _ rest rfl

theorem nextBlockComment_of_parts {body rest : List Char} {closed : Bool}
    {alone : List Char → Bool} (halone : ∀ rest, alone rest = false)
    (h : BlockBody closed body rest) :
    nextBlockComment alone (body ++ rest) = (.blockComment body closed, rest) := by
  have hextent := blockExtent_of_parts h 0
  obtain ⟨htake, hdrop⟩ := take_drop_parts (rfl : body ++ rest = body ++ rest) rfl
  simp only [nextBlockComment, hextent, halone, Bool.and_false, Bool.false_eq_true, if_false, htake,
    hdrop]

theorem ne_feed_of_notMem {line : List Char} (h : '\n' ∉ line) :
    ∀ c ∈ line, decide (c ≠ '\n') = true := by
  intro c hc
  rw [decide_eq_true_eq]
  rintro rfl
  exact h hc

theorem takeWhile_line {line : List Char} (h : '\n' ∉ line) (rest : List Char) :
    (line ++ '\n' :: rest).takeWhile (· ≠ '\n') = line ∧
      (line ++ '\n' :: rest).dropWhile (· ≠ '\n') = '\n' :: rest := by
  have hline := ne_feed_of_notMem h
  rw [List.takeWhile_append_of_pos hline, List.dropWhile_append_of_pos hline]
  simp

theorem nextLineComment_of_parts {body ending rest : List Char} (hbody : '\n' ∉ body)
    (hend : LineEnd body ending rest) :
    nextLineComment (body ++ ending ++ rest) = (.lineComment body ending, rest) := by
  cases hend with
  | feed _ hret =>
    have hline : body ++ ['\n'] ++ rest = body ++ '\n' :: rest := by simp
    obtain ⟨htake, hdrop⟩ := takeWhile_line hbody rest
    rw [nextLineComment, hline, htake, hdrop]
    simp [hret]
  | crlf =>
    have hline : body ++ ['\r', '\n'] ++ rest = (body ++ ['\r']) ++ '\n' :: rest := by simp
    have hbody' : '\n' ∉ body ++ ['\r'] := by simp [hbody]
    obtain ⟨htake, hdrop⟩ := takeWhile_line hbody' rest
    rw [nextLineComment, hline, htake, hdrop]
    simp
  | stop =>
    have hall := ne_feed_of_notMem hbody
    rw [List.append_nil, List.append_nil, nextLineComment, List.takeWhile_eq_self_iff.mpr hall,
      List.dropWhile_eq_nil_iff.mpr hall]

/-- A slash that no second slash follows starts no directive. -/
theorem isDirective_eq_false {cs : List Char} (h : cs.head? ≠ some '/') :
    isDirective ('/' :: cs) = false := by
  refine Bool.eq_false_iff.mpr fun hdir => h ?_
  obtain ⟨ds, hds⟩ := slashes_of_isDirective hdir
  obtain rfl := (List.cons.inj hds).2
  rfl

/-- A slash that opens no comment opens a regular expression or stands for itself. -/
theorem nextSlash_of_head {o : ScanOptions} {s : State} {ctx : Context} {cs : List Char}
    (hline : cs.head? ≠ some '/') (hblock : cs.head? ≠ some '*') :
    nextSlash o s ctx cs =
      if s.tracker.canStartRegex && opensRegex cs then nextRegex cs else (.code '/', cs) := by
  unfold nextSlash
  rw [isDirective_eq_false hline, Bool.and_false, if_neg (by simp)]
  split
  · simp at hline
  · simp at hblock
  · rfl

theorem head?_of_opensRegex {cs : List Char} (h : opensRegex cs = true) :
    cs.head? ≠ some '/' ∧ cs.head? ≠ some '*' := by
  cases cs with
  | nil => simp [opensRegex] at h
  | cons c cs =>
    simp only [opensRegex, List.contains_eq_mem, List.mem_cons, Bool.not_eq_true',
      decide_eq_false_iff_not, not_or] at h
    simp only [List.head?_cons, ne_eq, Option.some.injEq]
    exact ⟨h.2.1, h.2.2.1⟩

theorem nextSlash_of_fits {s : State} {ctx : Context} {l : Lexeme} {rest cs : List Char}
    (hctx : s.reading.place = .topLevel ↔ ctx = .topLevel)
    (hfits : Fits s.reading l rest) (hplace : s.reading.place ≠ .template)
    (htext : l.text ++ rest = '/' :: cs) : nextSlash keepBraces s ctx cs = (l, rest) := by
  cases hfits with
  | code _ _ _ hdivides =>
    obtain ⟨rfl, rfl⟩ := eq_of_singleton_append htext
    obtain ⟨hline, hblock, hregex⟩ := hdivides rfl
    rw [nextSlash_of_head hline hblock]
    exact if_neg (Bool.not_eq_true _ ▸ hregex)
  | quoted _ hquote _ _ =>
    obtain ⟨rfl, -⟩ := List.cons.inj htext
    exact absurd hquote (by decide)
  | regex _ hstart hopens hbody hend =>
    simp only [Lexeme.text, List.cons_append, List.cons.injEq, true_and] at htext
    rw [← List.append_assoc, htext] at hopens
    obtain ⟨hline, hblock⟩ := head?_of_opensRegex hopens
    rw [nextSlash_of_head hline hblock, if_pos, ← htext, nextRegex_of_parts hbody hend]
    exact Bool.and_eq_true_iff.mpr ⟨hstart, hopens⟩
  | openTemplate => exact absurd (List.cons.inj htext).1 (by decide)
  | escape _ _ h => exact absurd h hplace
  | backslash h => exact absurd h hplace
  | templateText h => exact absurd h hplace
  | closeTemplate _ h => exact absurd h hplace
  | openInterpolation _ h => exact absurd h hplace
  | directive htop hdir hline =>
    simp only [Lexeme.text] at htext
    unfold nextSlash
    rw [← htext, isDirective_of_fullLine hline, hdir, hctx.mp htop]
    exact cut_append _ rest (lineExtent_of_parts hline 0)
  | lineComment _ hbody hend hnot =>
    have hdir := isDirective_of_lineEnd hend
    rw [htext] at hdir
    have hskip : ¬ (ctx == .topLevel && isDirective ('/' :: cs)) = true := by
      rw [Bool.and_eq_true, beq_iff_eq]
      rintro ⟨htop, hcs⟩
      rw [hnot (hctx.mpr htop), hcs] at hdir
      exact Bool.noConfusion hdir
    simp only [Lexeme.text, List.cons_append, List.cons.injEq, true_and] at htext
    subst htext
    unfold nextSlash
    rw [if_neg hskip]
    exact nextLineComment_of_parts hbody hend
  | blockComment _ hbody =>
    simp only [Lexeme.text, List.cons_append, List.cons.injEq, true_and] at htext
    subst htext
    unfold nextSlash
    rw [isDirective_eq_false (by simp), Bool.and_false, if_neg (by simp)]
    exact nextBlockComment_of_parts (fun _ => by simp [State.bracesGo]) hbody

theorem nextCode_of_fits {s : State} {ctx : Context} {l : Lexeme} {c : Char} {rest cs : List Char}
    (hctx : s.reading.place = .topLevel ↔ ctx = .topLevel)
    (hfits : Fits s.reading l rest) (hplace : s.reading.place ≠ .template)
    (htext : l.text ++ rest = c :: cs) : nextCode keepBraces s ctx c cs = (l, rest) := by
  by_cases hslash : c = '/'
  · -- every lexeme that a slash may start is tried there
    subst hslash
    exact nextSlash_of_fits hctx hfits hplace htext
  unfold nextCode
  cases hfits with
  | code _ hquote htick _ =>
    obtain ⟨rfl, rfl⟩ := eq_of_singleton_append htext
    rw [hquote, if_neg (by simp), if_neg htick, if_neg hslash]
  | quoted _ hquote hbody hend =>
    simp only [Lexeme.text, List.cons_append, List.cons.injEq] at htext
    obtain ⟨rfl, rfl⟩ := htext
    rw [if_pos hquote, nextQuoted_of_parts hquote hbody hend]
  | regex => exact absurd (List.cons.inj htext).1.symm hslash
  | openTemplate =>
    obtain ⟨rfl, rfl⟩ := eq_of_singleton_append htext
    rw [if_neg (by decide), if_pos rfl]
  | escape _ _ h => exact absurd h hplace
  | backslash h => exact absurd h hplace
  | templateText h => exact absurd h hplace
  | closeTemplate _ h => exact absurd h hplace
  | openInterpolation _ h => exact absurd h hplace
  | directive _ hdir _ =>
    obtain ⟨line, rfl⟩ := slashes_of_isDirective hdir
    exact absurd (List.cons.inj htext).1.symm hslash
  | lineComment => exact absurd (List.cons.inj htext).1.symm hslash
  | blockComment => exact absurd (List.cons.inj htext).1.symm hslash

theorem nextTemplate_of_fits {r : Reading} {l : Lexeme} {c : Char} {rest cs : List Char}
    (hfits : Fits r l rest) (hplace : r.place = .template)
    (htext : l.text ++ rest = c :: cs) : nextTemplate c cs = (l, rest) := by
  unfold nextTemplate
  cases hfits with
  | escape d =>
    simp only [Lexeme.text, List.cons_append, List.nil_append, List.cons.injEq] at htext
    obtain ⟨rfl, rfl⟩ := htext
    rfl
  | backslash =>
    obtain ⟨rfl, rfl⟩ := eq_of_singleton_append htext
    rfl
  | templateText _ hesc htick hopen =>
    obtain ⟨rfl, rfl⟩ := eq_of_singleton_append htext
    rw [if_neg hesc, if_neg htick, if_neg (fun h => hopen h.1 h.2)]
  | closeTemplate =>
    obtain ⟨rfl, rfl⟩ := eq_of_singleton_append htext
    rw [if_neg (by decide), if_pos rfl]
  | openInterpolation =>
    simp only [Lexeme.text, List.cons_append, List.nil_append, List.cons.injEq] at htext
    obtain ⟨rfl, rfl⟩ := htext
    rw [if_neg (by decide), if_neg (by decide), if_pos (by simp)]
    rfl
  | code h => exact absurd hplace h
  | quoted h => exact absurd hplace h
  | regex h => exact absurd hplace h
  | openTemplate _ h => exact absurd hplace h
  | directive h => exact absurd (h.symm.trans hplace) (by decide)
  | lineComment h => exact absurd hplace h
  | blockComment h => exact absurd hplace h

/-- A lexeme that fits, together with what follows it, is the one that is read. -/
theorem next_of_fits {s : State} {l : Lexeme} {c : Char} {rest cs : List Char}
    (hfits : Fits s.reading l rest) (htext : l.text ++ rest = c :: cs) :
    next keepBraces s c cs = (l, rest) := by
  by_cases hplace : s.reading.place = .template
  · rw [next_eq_nextTemplate hplace, nextTemplate_of_fits hfits hplace htext]
  · obtain ⟨ctx, hctx, hnext⟩ := next_eq_nextCode hplace
    rw [hnext, nextCode_of_fits hctx hfits hplace htext]

/-! ### Pieces -/

/-- No lexeme that fits is empty. -/
theorem Fits.text_ne {r : Reading} {l : Lexeme} {rest : List Char} (h : Fits r l rest) :
    l.text ≠ [] := by
  cases h with
  | directive _ hdir _ =>
    obtain ⟨line, rfl⟩ := slashes_of_isDirective hdir
    simp [Lexeme.text]
  | _ => simp [Lexeme.text]

/-- A lexeme that fits at a state is the one that the scan goes on with. -/
theorem step_of_fits {s : State} {l : Lexeme} {rest : List Char} (hfits : Fits s.reading l rest)
    (hrest : s.rest = l.text ++ rest) :
    ∃ c cs, s.rest = c :: cs ∧ next keepBraces s c cs = (l, rest) := by
  obtain ⟨c, cs, hcs⟩ := List.exists_cons_of_ne_nil hfits.text_ne
  have htext : l.text ++ rest = c :: (cs ++ rest) := by rw [hcs, List.cons_append]
  exact ⟨c, cs ++ rest, hrest.trans htext, next_of_fits hfits htext⟩

/-- Pieces that fit are those that the scan reads. -/
theorem Lexed.pieces_eq {ps : List Piece} : ∀ {s : State}, Lexed s.reading ps →
    textOf ps = s.rest → pieces keepBraces s = ps.map Piece.restored := by
  induction ps with
  | nil =>
    intro s _ htext
    exact pieces_nil _ htext.symm
  | cons p ps ih =>
    rintro s (_ | ⟨hplace, hfits, hlexed⟩) htext
    obtain ⟨c, cs, hrest, hnext⟩ := step_of_fits hfits htext.symm
    have hstep : step keepBraces s c cs = absorb s p.lexeme (textOf ps) := by rw [step, hnext]
    rw [← reading_absorb s p.lexeme (textOf ps)] at hlexed
    rw [pieces_cons _ hrest, hstep, ih hlexed (absorb_rest ..).symm, hnext, ← hplace]
    rfl

/-- **There is only one way to cut a text into pieces that fit.** -/
theorem Lexed.unique {s : State} {ps qs : List Piece} (hps : Lexed s.reading ps)
    (hqs : Lexed s.reading qs) (htext : textOf ps = s.rest) (htext' : textOf qs = s.rest) :
    ps.map Piece.restored = qs.map Piece.restored :=
  (hps.pieces_eq htext).symm.trans (hqs.pieces_eq htext')

end Scan

end Uncomment
