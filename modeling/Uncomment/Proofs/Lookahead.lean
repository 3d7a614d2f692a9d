/-
# How far a scan looks ahead

A lexeme is read by looking at what stands after it, but not far: whether it fits there is
settled by the first character that follows it (`Fits.of_head`). The one exception are the
braces around a comment, for which spaces and tabs are passed over. Reading with the option that
takes braces away is reading without it and then joining the braces to the comment
(`next_eq_joinBraces`), so that what is read before a slash does not depend on what the slash
opens (`next_swap`).

Key definitions: `Scan.State.joinBraces`.
Key theorems: `Scan.Fits.of_head`, `Scan.next_eq_joinBraces`, `Scan.next_swap`.
-/
import Uncomment.Proofs.Simulation
import Uncomment.Proofs.Unique

namespace Uncomment

open Text

/-! ### The first character after a lexeme -/

theorem eq_nil_of_head? {xs : List Char} (h : ([] : List Char).head? = xs.head?) : xs = [] := by
  cases xs with
  | nil => rfl
  | cons c cs => simp at h

theorem opensRegex_of_head {xs ys : List Char} (h : xs.head? = ys.head?) :
    opensRegex xs = opensRegex ys := by
  cases xs with
  | nil => rw [eq_nil_of_head? h]
  | cons c cs =>
    obtain ⟨ds, rfl⟩ := List.head?_eq_some_iff.mp h.symm
    rfl

theorem head?_append_congr (front : List Char) {xs ys : List Char} (h : xs.head? = ys.head?) :
    (front ++ xs).head? = (front ++ ys).head? := by
  cases front with
  | nil => exact h
  | cons c cs => rfl

theorem QuotedEnd.of_nil {quote : Char} {closed : Bool} {ending rest rest' : List Char}
    (h : QuotedEnd quote closed ending rest) (hnil : rest = [] → rest' = []) :
    QuotedEnd quote closed ending rest' := by
  cases h with
  | quote => exact .quote rest'
  | feed => exact .feed rest'
  | stop =>
    rw [hnil rfl]
    exact .stop
  | backslash =>
    rw [hnil rfl]
    exact .backslash

theorem RegexEnd.of_head {inClass closed : Bool} {ending rest rest' : List Char}
    (h : RegexEnd inClass closed ending rest) (hhead : rest.head? = rest'.head?) :
    RegexEnd inClass closed ending rest' := by
  cases h with
  | slash hflags hrest => exact .slash hflags (hhead ▸ hrest)
  | feed =>
    obtain ⟨ds, rfl⟩ := List.head?_eq_some_iff.mp hhead.symm
    exact .feed inClass ds
  | stop =>
    rw [eq_nil_of_head? hhead]
    exact .stop inClass
  | backslash =>
    rw [eq_nil_of_head? hhead]
    exact .backslash inClass

theorem FullLine.of_nil {line rest rest' : List Char} (h : FullLine line rest)
    (hnil : rest = [] → rest' = []) : FullLine line rest' := by
  cases h with
  | feed line _ hline => exact .feed line rest' hline
  | stop hline =>
    rw [hnil rfl]
    exact .stop hline

theorem LineEnd.of_nil {body ending rest rest' : List Char} (h : LineEnd body ending rest)
    (hnil : rest = [] → rest' = []) : LineEnd body ending rest' := by
  cases h with
  | feed _ hret => exact .feed rest' hret
  | crlf => exact .crlf body rest'
  | stop =>
    rw [hnil rfl]
    exact .stop body

theorem BlockBody.of_nil {closed : Bool} {body rest rest' : List Char}
    (h : BlockBody closed body rest) (hnil : rest = [] → rest' = []) :
    BlockBody closed body rest' := by
  cases h with
  | closed inner _ hinner => exact .closed inner rest' hinner
  | stop hbody =>
    rw [hnil rfl]
    exact .stop hbody

namespace Scan

theorem Reading.Divides.of_head {r : Reading} {rest rest' : List Char} (h : r.Divides rest)
    (hhead : rest.head? = rest'.head?) : r.Divides rest' := by
  unfold Divides at h ⊢
  rwa [← hhead, ← opensRegex_of_head hhead]

/-- **Whether a lexeme fits depends on what follows it by the first character only.** -/
theorem Fits.of_head {r : Reading} {l : Lexeme} {rest rest' : List Char} (h : Fits r l rest)
    (hhead : rest.head? = rest'.head?) : Fits r l rest' := by
  have hnil : rest = [] → rest' = [] := by
    rintro rfl
    exact eq_nil_of_head? hhead
  cases h with
  | code hplace hquote htick hdivides =>
    exact .code hplace hquote htick (fun hc => (hdivides hc).of_head hhead)
  | quoted hplace hquote hbody hend => exact .quoted hplace hquote hbody (hend.of_nil hnil)
  | @regex body ending _ _ _ hplace hstart hopens hbody hend =>
    refine .regex hplace hstart ?_ hbody (hend.of_head hhead)
    rwa [← opensRegex_of_head (head?_append_congr body (head?_append_congr ending hhead))]
  | openTemplate _ hplace => exact .openTemplate rest' hplace
  | escape c _ hplace => exact .escape c rest' hplace
  | backslash hplace =>
    rw [hnil rfl]
    exact .backslash hplace
  | templateText hplace hesc htick hopen =>
    exact .templateText hplace hesc htick (fun hc => hhead ▸ hopen hc)
  | closeTemplate _ hplace => exact .closeTemplate rest' hplace
  | openInterpolation _ hplace => exact .openInterpolation rest' hplace
  | directive hplace hdir hline => exact .directive hplace hdir (hline.of_nil hnil)
  | lineComment hplace hbody hend hdir => exact .lineComment hplace hbody (hend.of_nil hnil) hdir
  | blockComment hplace hbody => exact .blockComment hplace (hbody.of_nil hnil)

/-! ### Joining braces to a comment -/

/-- A closed comment with the braces that go with it, if it stands alone in them; any other
lexeme as it is. -/
def State.joinBraces (o : ScanOptions) (s : State) : Lexeme × List Char → Lexeme × List Char
  | (.blockComment body true, rest) =>
    if s.frames.isEmpty && o.jsxComments && followsBrace s.out && facesBrace rest then
      cut ((rest.takeWhile isSpaceOrTab).length + 1) (.jsxComment body ·) rest
    else (.blockComment body true, rest)
  | read => read

theorem joinBraces_congr (o : ScanOptions) {s t : State} (hreading : s.reading = t.reading)
    (hout : s.out = t.out) : s.joinBraces o = t.joinBraces o := by
  have hlayers : s.frames.map Frame.layer = t.frames.map Frame.layer :=
    congrArg Reading.layers hreading
  have hframes : s.frames.isEmpty = t.frames.isEmpty := by
    rw [← List.isEmpty_map, hlayers, List.isEmpty_map]
  funext read
  simp only [State.joinBraces, hframes, hout]

theorem nextLineComment_joinBraces (o : ScanOptions) (s : State) (cs : List Char) :
    s.joinBraces o (nextLineComment cs) = nextLineComment cs := by
  unfold nextLineComment
  split
  · rfl
  · dsimp only
    split <;> rfl

theorem nextBlockComment_joinBraces (o : ScanOptions) {s : State} {ctx : Context}
    (hctx : ctx = .topLevel ↔ s.frames = []) (cs : List Char) :
    nextBlockComment (s.bracesGo o ctx) cs =
      s.joinBraces o (nextBlockComment (s.bracesGo keepBraces ctx) cs) := by
  have hkeep : ∀ rest, s.bracesGo keepBraces ctx rest = false := fun rest => by
    simp [State.bracesGo]
  have hgo : ∀ rest, s.bracesGo o ctx rest =
      (s.frames.isEmpty && o.jsxComments && followsBrace s.out && facesBrace rest) := fun rest => by
    have htop : (ctx == .topLevel) = s.frames.isEmpty := by
      rw [Bool.eq_iff_iff, beq_iff_eq, List.isEmpty_iff]
      exact hctx
    rw [State.bracesGo, htop]
  simp only [nextBlockComment, hkeep, hgo, Bool.and_false, Bool.false_eq_true, if_false]
  cases (blockExtent 0 cs).closed with
  | false => rfl
  | true => simp only [Bool.true_and, State.joinBraces]

theorem nextCode_joinBraces (o : ScanOptions) {s : State} {ctx : Context}
    (hctx : ctx = .topLevel ↔ s.frames = []) (c : Char) (cs : List Char) :
    nextCode o s ctx c cs = s.joinBraces o (nextCode keepBraces s ctx c cs) := by
  unfold nextCode
  split_ifs
  · rfl
  · rfl
  · unfold nextSlash
    split_ifs
    · rfl
    · split
      · exact (nextLineComment_joinBraces o s _).symm
      · exact nextBlockComment_joinBraces o hctx _
      · split_ifs <;> rfl
  · rfl

/-- **Reading with the option is reading without it and joining braces.** -/
theorem next_eq_joinBraces (o : ScanOptions) (s : State) (c : Char) (cs : List Char) :
    next o s c cs = s.joinBraces o (next keepBraces s c cs) := by
  unfold next
  split
  · next h => exact nextCode_joinBraces o (by simp [h]) c cs
  · unfold nextTemplate
    split_ifs <;> rfl
  · next h => exact nextCode_joinBraces o (by simp [h]) c cs

/-! ### What stands before a slash -/

/-- A closing brace before which only spaces and tabs stand is found before a slash, or not at
all. -/
theorem facesBrace_before {front back : List Char} (hback : back.head? = some '/') :
    facesBrace (front ++ back) = true ↔
      ∃ blanks after, (∀ c ∈ blanks, isSpaceOrTab c = true) ∧ front = blanks ++ '}' :: after := by
  obtain ⟨tail, rfl⟩ := List.head?_eq_some_iff.mp hback
  constructor
  · intro h
    induction front with
    | nil => simp [facesBrace, isSpaceOrTab] at h
    | cons c front ih =>
      by_cases hc : isSpaceOrTab c = true
      · obtain ⟨blanks, after, hblanks, rfl⟩ := ih (by simpa [facesBrace, hc] using h)
        exact ⟨c :: blanks, after, by simpa [hc] using hblanks, rfl⟩
      · obtain rfl : c = '}' := by simpa [facesBrace, hc] using h
        exact ⟨[], front, by simp, rfl⟩
  · rintro ⟨blanks, after, hblanks, rfl⟩
    rw [facesBrace, List.append_assoc, List.dropWhile_append_of_pos hblanks]
    rfl

/-- Cutting after the closing brace. -/
theorem cut_brace {blanks : List Char} (hblanks : ∀ c ∈ blanks, isSpaceOrTab c = true)
    (make : List Char → Lexeme) (rest : List Char) :
    cut (((blanks ++ '}' :: rest).takeWhile isSpaceOrTab).length + 1) make
      (blanks ++ '}' :: rest) = (make (blanks ++ ['}']), rest) := by
  have htake : (blanks ++ '}' :: rest).takeWhile isSpaceOrTab = blanks := by
    rw [List.takeWhile_append_of_pos hblanks, List.takeWhile_cons_of_neg (by decide),
      List.append_nil]
  have hsplit : blanks ++ '}' :: rest = blanks ++ ['}'] ++ rest := by simp
  rw [htake, hsplit]
  exact cut_append make rest (by simp)

/-- What is joined to a lexeme before a slash does not depend on what the slash opens. -/
theorem joinBraces_swap (o : ScanOptions) (s : State) {k l : Lexeme}
    {front after back back' : List Char} (hback : back.head? = some '/')
    (hback' : back'.head? = some '/')
    (h : s.joinBraces o (k, front ++ back) = (l, after ++ back)) :
    s.joinBraces o (k, front ++ back') = (l, after ++ back') := by
  have hsame : ∀ {l'}, (l', front ++ back) = (l, after ++ back) →
      (l', front ++ back') = (l, after ++ back') := by
    intro l' heq
    obtain ⟨rfl, happend⟩ := Prod.mk.inj heq
    rw [List.append_cancel_right happend]
  unfold State.joinBraces at h ⊢
  split at h
  · next body rest heq =>
    obtain ⟨rfl, rfl⟩ := Prod.mk.inj heq
    have hfaces : facesBrace (front ++ back') = facesBrace (front ++ back) := by
      rw [Bool.eq_iff_iff, facesBrace_before hback', facesBrace_before hback]
    dsimp only
    rw [hfaces]
    split_ifs at h ⊢ with hgo
    · -- the closing brace stands before the slash in both texts
      have hbrace : facesBrace (front ++ back) = true := by
        simp only [Bool.and_eq_true] at hgo
        exact hgo.2
      obtain ⟨blanks, inner, hblanks, rfl⟩ := (facesBrace_before hback).mp hbrace
      simp only [List.append_assoc, List.cons_append] at h ⊢
      rw [cut_brace hblanks] at h ⊢
      obtain ⟨rfl, happend⟩ := Prod.mk.inj h
      rw [List.append_cancel_right happend]
    · exact hsame h
  · next hne =>
    split
    · next body rest heq =>
      obtain ⟨rfl, -⟩ := Prod.mk.inj heq
      exact absurd rfl (hne body (front ++ back))
    · exact hsame h

theorem joinBraces_suffix (o : ScanOptions) (s : State) (k : Lexeme) (rest : List Char) :
    (s.joinBraces o (k, rest)).2 <:+ rest := by
  unfold State.joinBraces
  split
  · next heq =>
    obtain ⟨rfl, rfl⟩ := Prod.mk.inj heq
    split_ifs
    · exact List.drop_suffix ..
    · exact List.suffix_rfl
  · exact List.suffix_rfl

/-- **What is read before a slash does not depend on what the slash opens.** -/
theorem next_swap {o : ScanOptions} {s t : State} (hreading : s.reading = t.reading)
    (hout : s.out = t.out) {c : Char} {cs cs' after back back' : List Char} {l : Lexeme}
    (hback : back.head? = some '/') (hback' : back'.head? = some '/')
    (hnext : next o s c cs = (l, after ++ back)) (htext : l.text ++ (after ++ back') = c :: cs') :
    next o t c cs' = (l, after ++ back') := by
  have hwhole := next_append o s c cs
  rw [hnext] at hwhole
  rw [next_eq_joinBraces] at hnext
  have hfits := fits_next s c cs
  have hread := next_append keepBraces s c cs
  generalize next keepBraces s c cs = read at hnext hfits hread
  obtain ⟨k, rest⟩ := read
  obtain ⟨front, rfl⟩ : back <:+ rest := by
    have hsuffix := joinBraces_suffix o s k rest
    rw [hnext] at hsuffix
    exact (List.suffix_append after back).trans hsuffix
  -- both readings cut the same text before the slash
  have hsame : k.text ++ front = l.text ++ after := by
    rw [← hwhole, ← List.append_assoc, ← List.append_assoc] at hread
    exact List.append_cancel_right hread
  have htext' : k.text ++ (front ++ back') = c :: cs' := by
    rw [← htext, ← List.append_assoc, hsame, List.append_assoc]
  have hfits' : Fits t.reading k (front ++ back') := by
    rw [← hreading]
    exact hfits.of_head (head?_append_congr front (hback.trans hback'.symm))
  rw [next_eq_joinBraces, next_of_fits hfits' htext', ← joinBraces_congr o hreading hout]
  exact joinBraces_swap o s hback hback' hnext

/-- The next lexeme depends on the reading and on what was written. -/
theorem next_congr_reading (o : ScanOptions) {s t : State} (hreading : s.reading = t.reading)
    (hout : s.out = t.out) (c : Char) (cs : List Char) : next o s c cs = next o t c cs := by
  have hfits := fits_next s c cs
  rw [hreading] at hfits
  rw [next_eq_joinBraces o s, next_eq_joinBraces o t, joinBraces_congr o hreading hout,
    next_of_fits hfits (next_append keepBraces s c cs)]

end Scan

end Uncomment
