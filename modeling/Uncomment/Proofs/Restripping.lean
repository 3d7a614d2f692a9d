/-
# Stripping a stripped text

If every slash in code opens a comment or a directive, what the pieces of a text leave is cut into
pieces again at the same places: a piece that is kept is read as it was, the line terminators that a
comment leaves are code, and what is erased was code at top level (`Lexed.remains`). The tracker may
then be anything, because no slash is left whose reading depends on it. Whether a piece is read as
it was depends on what follows only at the end of the text and, after a dollar sign in a template,
by the first character, and neither changes.

So there is no comment in the stripped text, and there are as many directives as before.

Key definitions: `Scan.Piece.Plain`, `Scan.Piece.remains`.
Key theorems: `Scan.Follows.plain`, `Scan.Lexed.remains`, `Scan.pieces_stripped`,
`strip_strip_of_plain`.
-/
import Uncomment.Proofs.Contents
import Uncomment.Proofs.Sizes

namespace Uncomment

open Text

namespace Scan

/-! ### Slashes that open comments -/

/-- Whether a piece is a comment or directive if it starts with a slash in code. -/
def Piece.Plain (p : Piece) : Prop :=
  p.place ≠ .template → p.text.head? = some '/' →
    p.lexeme.isComment = true ∨ p.lexeme.isDirective = true

instance (p : Piece) : Decidable p.Plain := inferInstanceAs (Decidable (_ → _ → _))

theorem Piece.plain_top {c : Char} (h : c ≠ '/') : (Piece.top c).Plain := by
  intro _ hslash
  exact absurd (Option.some.inj hslash) h

/-- **A scan that follows another one reads plain pieces if the other one does.** A comment with its
braces is read as a comment and the characters after it, none of which is a slash. -/
theorem Follows.plain {o : ScanOptions} {s t : State} {ps : List Piece} (h : Follows s t ps)
    (hplain : ∀ p ∈ pieces o s, p.Plain) : ∀ p ∈ pieces keepBraces t, p.Plain := by
  induction s using scan_induction o generalizing t ps with
  | hnil s hrest =>
    rw [pieces_nil _ (h.rest ▸ hrest)]
    simp
  | hcons s c cs hrest ih =>
    have hrest' : t.rest = c :: cs := h.rest ▸ hrest
    rw [pieces_cons _ hrest, List.forall_mem_cons] at hplain
    rcases h.step_cases (o := o) hrest with
      ⟨hnext, hnow⟩ | ⟨body, blanks, rest, t', qs, hblanks, -, hpieces, -, hnow, -⟩
    · have hplace : t.reading.place = s.reading.place := by
        simp only [Reading.place, State.reading, h.frames]
      rw [pieces_cons _ hrest', List.forall_mem_cons, ← hnext, hplace]
      exact ⟨hplain.1, ih hnow hplain.2⟩
    · rw [hpieces, List.forall_mem_cons, List.forall_mem_append, List.forall_mem_cons]
      refine ⟨fun _ _ => Or.inl rfl, ?_, Piece.plain_top (by decide), ih hnow hplain.2⟩
      intro p hp
      obtain ⟨d, hd, rfl⟩ := List.mem_map.mp hp
      refine Piece.plain_top ?_
      rintro rfl
      exact absurd (hblanks _ hd) (by decide)

/-! ### What remains of a piece -/

namespace Piece

/-- The pieces that a piece becomes in the stripped text: the line terminators that a comment leaves
are code, and any other piece stays as it is, unless it was erased. -/
def remains (p : Piece) : List Piece :=
  if p.erased then []
  else if p.lexeme.isComment then p.lexeme.leaves.map fun c => ⟨p.place, .code c, false⟩
  else [p]

variable {p : Piece}

theorem remains_of_erased (h : p.erased = true) : p.remains = [] := if_pos h

theorem remains_of_comment (herased : p.erased = false) (h : p.lexeme.isComment = true) :
    p.remains = p.lexeme.leaves.map fun c => ⟨p.place, .code c, false⟩ := by
  rw [remains, if_neg (by simp [herased]), if_pos h]

theorem remains_of_not_comment (herased : p.erased = false) (h : p.lexeme.isComment = false) :
    p.remains = [p] := by
  rw [remains, if_neg (by simp [herased]), if_neg (by simp [h])]

theorem textOf_remains (p : Piece) : textOf p.remains = p.leaves := by
  unfold remains leaves
  split_ifs with herased hcomment
  · rfl
  · simp [textOf, List.flatMap_map, Piece.text, Lexeme.text]
  · rw [leaves_of_not_comment (by simpa using hcomment), textOf_cons, textOf_nil, List.append_nil]
    rfl

/-- No comment remains. -/
theorem isComment_of_mem_remains {q : Piece} (h : q ∈ p.remains) : q.lexeme.isComment = false := by
  unfold remains at h
  split_ifs at h with herased hcomment
  · cases h
  · obtain ⟨c, -, rfl⟩ := List.mem_map.mp h
    rfl
  · rw [List.mem_singleton.mp h]
    simpa using hcomment

end Piece

theorem textOf_remains (ps : List Piece) : textOf (ps.flatMap Piece.remains) = leavesOf ps := by
  rw [textOf, List.flatMap_assoc, leavesOf]
  exact congrArg (List.flatMap · ps) (funext Piece.textOf_remains)

/-! ### Lexemes before another text -/

/-- **A plain lexeme that is no comment fits again**, whatever the tracker is: before the end of the
text if it stood there, and before the same character if it is read on in a template. -/
theorem Fits.again {r : Reading} {l : Lexeme} {rest rest' : List Char} (h : Fits r l rest)
    (hcomment : l.isComment = false)
    (hplain : r.place ≠ .template → l.text.head? = some '/' → l.isDirective = true)
    (hnil : rest = [] → rest' = [])
    (hhead : (r.after l).place = .template → rest'.head? = rest.head?) (t : Tracker) :
    Fits ⟨r.layers, t⟩ l rest' := by
  cases h with
  | code hplace hquote htick _ =>
    refine .code hplace hquote htick ?_
    rintro rfl
    cases hplain hplace rfl
  | quoted hplace hquote hbody hend => exact .quoted hplace hquote hbody (hend.of_nil hnil)
  | regex hplace => cases hplain hplace rfl
  | openTemplate _ hplace => exact .openTemplate rest' hplace
  | escape c _ hplace => exact .escape c rest' hplace
  | backslash hplace =>
    rw [hnil rfl]
    exact .backslash hplace
  | templateText hplace hesc htick hopen =>
    refine .templateText hplace hesc htick fun hc => ?_
    rw [hhead hplace]
    exact hopen hc
  | closeTemplate _ hplace => exact .closeTemplate rest' hplace
  | openInterpolation _ hplace => exact .openInterpolation rest' hplace
  | directive hplace hdir hline => exact .directive hplace hdir (hline.of_nil hnil)
  | lineComment => cases hcomment
  | blockComment => cases hcomment

/-- The layers after a lexeme do not depend on the tracker. -/
theorem Reading.after_eq (r : Reading) (t : Tracker) (l : Lexeme) :
    Reading.after ⟨r.layers, t⟩ l =
      ⟨(r.after l).layers, (Reading.after ⟨r.layers, t⟩ l).tracker⟩ := by
  cases l <;> rfl

theorem Reading.layers_after_code {r : Reading} (h : r.place = .topLevel) (c : Char) :
    (r.after (.code c)).layers = r.layers := by
  match hlayers : r.layers with
  | [] => simp [after, hlayers, countBrace]
  | .template :: _ => simp [place, hlayers] at h
  | .interpolation _ :: _ => simp [place, hlayers] at h

/-- A comment stands in code, opens and closes nothing, and leaves line terminators. -/
theorem Fits.comment {r : Reading} {l : Lexeme} {rest : List Char} (h : Fits r l rest)
    (hl : l.isComment = true) :
    r.place ≠ .template ∧ (r.after l).layers = r.layers ∧ ∀ c ∈ l.leaves, c = '\r' ∨ c = '\n' := by
  cases h with
  | lineComment hplace _ hend _ =>
    refine ⟨hplace, rfl, ?_⟩
    cases hend <;> simp [Lexeme.leaves]
  | blockComment hplace _ =>
    refine ⟨hplace, rfl, fun c hc => Or.inr ?_⟩
    exact List.eq_of_mem_replicate hc
  | _ => cases hl

/-! ### The pieces that remain -/

/-- Line terminators are read as code, and leave the layers as they are. -/
theorem lexed_terminators {layers : List Layer} {place : Place} {qs : List Piece}
    (hplace : place = Reading.place ⟨layers, {}⟩) (htemplate : place ≠ .template)
    (h : ∀ t, Lexed ⟨layers, t⟩ qs) : ∀ {cs : List Char}, (∀ c ∈ cs, c = '\r' ∨ c = '\n') →
      ∀ t, Lexed ⟨layers, t⟩ (cs.map (fun c => ⟨place, .code c, false⟩) ++ qs) := by
  intro cs
  induction cs with
  | nil => exact fun _ t => h t
  | cons c cs ih =>
    intro hcs t
    rw [List.forall_mem_cons] at hcs
    have hlayers : Reading.countBrace c layers = layers := by
      refine Reading.countBrace_of_ne ?_ ?_ layers <;> rcases hcs.1 with rfl | rfl <;> decide
    refine .cons hplace (fits_ending (hplace ▸ htemplate) hcs.1 _) ?_
    rw [Reading.after, hlayers]
    exact ih hcs.2 _

/-- In a template, what remains starts as it did. -/
theorem Lexed.head_remains {r : Reading} {ps : List Piece} (h : Lexed r ps)
    (hsound : ∀ p ∈ ps, p.Sound) (hplace : r.place = .template) :
    (textOf (ps.flatMap Piece.remains)).head? = (textOf ps).head? := by
  cases h with
  | nil => rfl
  | @cons _ p ps hp hfits _ =>
    have herased : p.erased = false := by
      by_contra herased
      have htop := (hsound p (by simp) (by simpa using herased)).1
      rw [hp, hplace] at htop
      cases htop
    have hcomment : p.lexeme.isComment = false := by
      by_contra hcomment
      exact (hfits.comment (by simpa using hcomment)).1 hplace
    obtain ⟨c, cs, htext⟩ := List.exists_cons_of_ne_nil hfits.text_ne
    rw [List.flatMap_cons, Piece.remains_of_not_comment herased hcomment, List.singleton_append,
      textOf_cons, textOf_cons, Piece.text, htext]
    rfl

theorem Lexed.eq_nil {r : Reading} {ps : List Piece} (h : Lexed r ps) (htext : textOf ps = []) :
    ps = [] := by
  cases h with
  | nil => rfl
  | cons _ hfits _ =>
    rw [textOf_cons, List.append_eq_nil_iff] at htext
    exact absurd htext.1 hfits.text_ne

/-- **What remains of plain pieces is cut into pieces that fit**, whatever the tracker is. -/
theorem Lexed.remains {r : Reading} {ps : List Piece} (h : Lexed r ps)
    (hsound : ∀ p ∈ ps, p.Sound) (hplain : ∀ p ∈ ps, p.Plain) :
    ∀ t, Lexed ⟨r.layers, t⟩ (ps.flatMap Piece.remains) := by
  induction h with
  | nil r => exact fun t => .nil _
  | @cons r p ps hplace hfits hlexed ih =>
    intro t
    rw [List.forall_mem_cons] at hsound hplain
    have hrest := ih hsound.2 hplain.2
    rw [List.flatMap_cons]
    by_cases herased : p.erased = true
    · -- what is erased is code at top level, where braces are not counted
      obtain ⟨htop, c, -, hcode⟩ := hsound.1 herased
      have hlayers : (r.after p.lexeme).layers = r.layers := by
        rw [hplace] at htop
        rw [hcode]
        exact Reading.layers_after_code htop c
      rw [Piece.remains_of_erased herased, List.nil_append, ← hlayers]
      exact hrest t
    rw [Bool.not_eq_true] at herased
    by_cases hcomment : p.lexeme.isComment = true
    · obtain ⟨htemplate, hlayers, hleaves⟩ := hfits.comment hcomment
      rw [hlayers] at hrest
      rw [Piece.remains_of_comment herased hcomment]
      exact lexed_terminators hplace (hplace ▸ htemplate) hrest hleaves t
    · rw [Bool.not_eq_true] at hcomment
      rw [Piece.remains_of_not_comment herased hcomment, List.singleton_append]
      refine .cons hplace (hfits.again hcomment ?_ ?_ ?_ t) ?_
      · intro htemplate hslash
        have hopens := hplain.1 (hplace ▸ htemplate) hslash
        rwa [hcomment, Bool.false_eq_true, false_or] at hopens
      · intro hnil
        rw [hlexed.eq_nil hnil]
        rfl
      · exact hlexed.head_remains hsound.2
      · rw [Reading.after_eq]
        exact hrest _

/-! ### Counting -/

/-- Comments and directives are counted as they are read. -/
theorem stats_run_keepBraces (s : State) :
    (run keepBraces s).stats.removed =
        s.stats.removed + (pieces keepBraces s).countP (·.lexeme.isComment) ∧
      (run keepBraces s).stats.directives =
        s.stats.directives + (pieces keepBraces s).countP (·.lexeme.isDirective) := by
  induction s using scan_induction keepBraces with
  | hnil s hrest =>
    rw [run_nil _ hrest, pieces_nil _ hrest]
    exact ⟨rfl, rfl⟩
  | hcons s c cs hrest ih =>
    have hstats : (step keepBraces s c cs).stats = s.stats + (next keepBraces s c cs).1.counts :=
      stats_absorb ..
    rw [hstats, removed_add] at ih
    rw [run_cons _ hrest, pieces_cons _ hrest, ih.1, ih.2, List.countP_cons, List.countP_cons,
      Stats.add_def]
    generalize (next keepBraces s c cs).1 = l
    cases l <;> simp [Lexeme.counts, Lexeme.isComment, Lexeme.isDirective, Stats.removed] <;> omega

/-- With all options, as many comments are removed and directives kept as there are. -/
theorem stats_run (o : ScanOptions) (cs : List Char) :
    (run o { rest := cs }).stats.removed =
        (pieces keepBraces { rest := cs }).countP (·.lexeme.isComment) ∧
      (run o { rest := cs }).stats.directives =
        (pieces keepBraces { rest := cs }).countP (·.lexeme.isDirective) := by
  obtain ⟨ps, hfollows, -⟩ := exists_removals o cs
  obtain ⟨hremoved, hdirectives⟩ := stats_run_keepBraces { rest := cs }
  have hmerged : (mergedStats (run o { rest := cs }).stats).removed =
      (run o { rest := cs }).stats.removed := by
    simp only [mergedStats, Stats.removed]
    omega
  rw [hfollows.stats] at hremoved hdirectives
  rw [hmerged] at hremoved
  refine ⟨hremoved.trans ?_, hdirectives.trans ?_⟩
  · exact Nat.zero_add _
  · exact Nat.zero_add _

theorem isDirective_of_isComment {l : Lexeme} (h : l.isComment = true) : l.isDirective = false := by
  cases l <;> first | rfl | cases h

/-- A directive remains, and nothing else becomes one. -/
theorem Piece.Sound.countP_remains {p : Piece} (h : p.Sound) :
    p.remains.countP (·.lexeme.isDirective) = if p.lexeme.isDirective then 1 else 0 := by
  by_cases herased : p.erased = true
  · obtain ⟨-, c, -, hcode⟩ := h herased
    rw [remains_of_erased herased, hcode]
    rfl
  rw [Bool.not_eq_true] at herased
  by_cases hcomment : p.lexeme.isComment = true
  · rw [remains_of_comment herased hcomment, List.countP_map, isDirective_of_isComment hcomment]
    exact List.countP_eq_zero.mpr fun c _ => Bool.false_ne_true
  · rw [Bool.not_eq_true] at hcomment
    rw [remains_of_not_comment herased hcomment, List.countP_singleton]

/-- Directives remain. -/
theorem countP_remains {ps : List Piece} (hsound : ∀ p ∈ ps, p.Sound) :
    (ps.flatMap Piece.remains).countP (·.lexeme.isDirective) =
      ps.countP (·.lexeme.isDirective) := by
  induction ps with
  | nil => rfl
  | cons p ps ih =>
    rw [List.forall_mem_cons] at hsound
    rw [List.flatMap_cons, List.countP_append, hsound.1.countP_remains, ih hsound.2,
      List.countP_cons, Nat.add_comm]

/-- **The pieces of a stripped text are what remains of the pieces of the text**, if those are
plain. -/
theorem pieces_stripped {o : ScanOptions} {source : String}
    (h : ∀ p ∈ pieces o { rest := source.toList }, p.Plain) :
    ∃ ps : List Piece, (∀ p ∈ ps, p.Sound) ∧
      ps.map Piece.restored = pieces keepBraces { rest := source.toList } ∧
      pieces keepBraces { rest := (strip o source).text.toList } =
        (ps.flatMap Piece.remains).map Piece.restored := by
  obtain ⟨ps, hfollows, hremovals⟩ := exists_removals o source.toList
  obtain ⟨-, hlexed, hsound, hrestored⟩ := pieces_of_removals hremovals
  have hplain : ∀ p ∈ ps, p.Plain := by
    intro p hp
    have hmem : p.restored ∈ pieces keepBraces { rest := source.toList } := by
      rw [← hrestored]
      exact List.mem_map_of_mem hp
    exact (follows_start source.toList).plain h p.restored hmem
  have htext : (strip o source).text.toList = leavesOf ps := by simp [strip, hfollows.out]
  refine ⟨ps, hsound, hrestored, ?_⟩
  rw [htext, ← textOf_remains]
  exact Lexed.pieces_eq (hlexed.remains hsound hplain {}) rfl

end Scan

/-- **Stripping is idempotent where slashes only open comments.** If no slash in code divides or
opens a regular expression, stripping the stripped text again changes nothing, removes no comment
and keeps as many directives, however the source ends and whatever the options are. -/
theorem strip_strip_of_plain {o : ScanOptions} {source : String}
    (h : ∀ p ∈ Scan.pieces o { rest := source.toList }, p.Plain) :
    (strip o (strip o source).text).text = (strip o source).text ∧
    (strip o (strip o source).text).stats.removed = 0 ∧
    (strip o (strip o source).text).stats.directives = (strip o source).stats.directives := by
  obtain ⟨ps, hsound, hrestored, hagain⟩ := Scan.pieces_stripped h
  obtain ⟨-, hdirectives⟩ := Scan.stats_run o source.toList
  obtain ⟨hremoved, hdirectives'⟩ := Scan.stats_run o (strip o source).text.toList
  rw [← hrestored, List.countP_map] at hdirectives
  rw [hagain, List.countP_map] at hremoved hdirectives'
  have hnone : (strip o (strip o source).text).stats.removed = 0 := by
    refine hremoved.trans (List.countP_eq_zero.mpr ?_)
    intro q hq
    obtain ⟨p, -, hq⟩ := List.mem_flatMap.mp hq
    have hcomment := Scan.Piece.isComment_of_mem_remains hq
    exact Bool.eq_false_iff.mp hcomment
  refine ⟨(strip_text_eq_iff o _).mpr hnone, hnone, ?_⟩
  exact hdirectives'.trans ((Scan.countP_remains hsound).trans hdirectives.symm)

/-- A directive, a comment with its braces and one in an interpolation, slashes in a template and in
a string, and a string that the end of the source leaves open after a backslash. -/
theorem strip_strip_of_plain_malformed :
    let source := "///<reference/>\n\x7b /*a*/ \x7d`/$\x7b/*b*/\x7b\x7d\x7d//` '/*' // c\n'//\\"
    let stripped := "///<reference/>\n`/$\x7b\x7b\x7d\x7d//` '/*' \n'//\\"
    (∀ p ∈ Scan.pieces {} { rest := source.toList }, p.Plain) ∧
    (strip {} source).text = stripped ∧ (strip {} source).stats = ⟨1, 1, 1, 1⟩ ∧
    (strip {} stripped).text = stripped ∧ (strip {} stripped).stats.removed = 0 ∧
    (strip {} stripped).stats.directives = 1 := by
  intro source stripped
  have hplain : ∀ p ∈ Scan.pieces {} { rest := source.toList }, p.Plain := by decide +kernel
  have hstrip : (strip {} source).text = stripped ∧ (strip {} source).stats = ⟨1, 1, 1, 1⟩ := by
    decide +kernel
  obtain ⟨htext, hremoved, hdirectives⟩ := strip_strip_of_plain hplain
  rw [hstrip.1] at htext hremoved hdirectives
  rw [hstrip.2] at hdirectives
  exact ⟨hplain, hstrip.1, hstrip.2, htext, hremoved, hdirectives⟩

end Uncomment
