/-
# Sources whose slashes stay what they are

What a slash is depends on the code before it, and a comment has a say in that: after a line
comment a slash opens a regular expression, and so it may after a block comment that hides a word.
In the stripped text the comment is gone. A source is `steady` if a slash that could open a regular
expression does so exactly if it does after what has been written, if no comment that takes its
braces with it follows a slash, and if no string or regular expression has a space or tab taken
along at the end of a line. The first two say that a slash is read alike in the stripped text, and
the third one is for trimming.

The stripped text of a steady source holds no comments (`clear_of_steady`): a reader follows what
the scan writes. Where braces are taken back from what was written, it returns to where it was
before them.

Key definitions: `Scan.steady`, `Scan.Reader.Rests`.
Key theorems: `clear_of_steady`.
-/
import Uncomment.Proofs.Reader

namespace Uncomment

open Text

namespace Scan

/-! ### Steady sources -/

/-- The tracker of a scan of what has been written. -/
def State.written (o : ScanOptions) (s : State) : Tracker :=
  (run o { rest := s.out.reverse }).tracker

/-- Whether a lexeme that `rest` follows may be read: if the tracker is asked, the one of what has
been written gives the same answer; nothing hangs on the end of a line in it; and the braces that
it may take with it do not follow a slash. -/
def State.allows (o : ScanOptions) (s : State) (l : Lexeme) (rest : List Char) : Bool :=
  (!l.asks rest || (s.written o).canStartRegex == s.tracker.canStartRegex) && !l.hangs rest &&
    match l with
    | .jsxComment _ _ => (dropBrace s.out).head? != some '/'
    | _ => true

/-- Whether every lexeme from a state on may be read. -/
def steady (o : ScanOptions) (s : State) : Bool :=
  match _ : s.rest with
  | [] => true
  | c :: cs =>
    s.allows o (next o s c cs).1 (next o s c cs).2 && steady o (step o s c cs)
termination_by s.rest.length
decreasing_by simpa [*] using step_rest_length o s c cs

theorem steady_cons (o : ScanOptions) {s : State} {c : Char} {cs : List Char}
    (h : s.rest = c :: cs) :
    steady o s = (s.allows o (next o s c cs).1 (next o s c cs).2 && steady o (step o s c cs)) := by
  rw [steady]
  split
  · simp_all
  · next hrest =>
    obtain ⟨rfl, rfl⟩ := List.cons.inj (hrest.symm.trans h)
    rfl

namespace Reader

/-! ### Readers between lexemes of code -/

/-- A reader between lexemes of code, after a regular expression or elsewhere. -/
inductive Rests (layers : List Layer) : Reader → Prop where
  | plain (t : Tracker) : Rests layers ⟨⟨layers, t⟩, .plain⟩
  | flags (t : Tracker) : Rests layers ⟨⟨layers, t⟩, .flags⟩

section Resting

variable {a : Reader} {r : Reading}

theorem Rests.acts (h : a.Rests r.layers) (hplace : r.place ≠ .template) (rest : List Char) :
    a.Acts true r rest := by
  cases h with
  | plain t => exact acts_plain (by simp)
  | flags t => exact acts_flags rfl hplace

/-- A reader at the place of a scan that reads a comment is between lexemes of code. -/
theorem Acts.rests {stale : Bool} {cs : List Char} (h : a.Acts stale r ('/' :: cs))
    (hplace : r.place ≠ .template) : a.Rests r.layers := by
  obtain ⟨hlayers, -, hmode⟩ := h.reading_slash hplace
  obtain ⟨⟨layers, t⟩, mode⟩ := a
  obtain rfl : layers = r.layers := hlayers
  rcases hmode with rfl | rfl
  · exact .plain t
  · exact .flags t

/-- A reader at the place of a scan is also there if the tracker is of no account. -/
theorem Acts.stale {stale : Bool} {rest : List Char} (h : a.Acts stale r rest) :
    a.Acts true r rest := by
  cases h with
  | stop hends _ => exact .stop hends (by simp)
  | plain t _ hnext => exact .plain t (by simp) hnext
  | flags t _ hplace hnext => exact .flags t rfl hplace hnext

/-- Blanks leave a reader between lexemes of code. -/
theorem Rests.blanks (h : a.Rests r.layers) (hplace : r.place ≠ .template) {cs : List Char}
    (hcs : ∀ c ∈ cs, isBlank c = true) :
    ∃ b, a.readAll cs = some b ∧ b.Rests r.layers := by
  induction cs generalizing a with
  | nil => exact ⟨a, rfl, h⟩
  | cons c cs ih =>
    simp only [List.mem_cons, forall_eq_or_imp] at hcs
    obtain ⟨t, hnext⟩ : ∃ t, a.next c = some ⟨⟨r.layers, t⟩, .plain⟩ := by
      cases h with
      | plain t =>
        exact ⟨t, by rw [next_plain (r := ⟨r.layers, t⟩) hplace, ofCode_blank _ hcs.1]⟩
      | flags t =>
        exact ⟨t, by rw [next_flags (isAlphabetic_of_isBlank hcs.1), ofCode_blank _ hcs.1]⟩
    obtain ⟨b, hread, hb⟩ := ih (.plain t) hcs.2
    exact ⟨b, by rw [readAll_cons, hnext, Option.bind_some, hread], hb⟩

end Resting

/-! ### Going back -/

/-- What is true of every reader on its way: a string has a quote, and marks of templates are met
in templates. -/
def Proper (a : Reader) : Prop :=
  match a.mode with
  | .quoted quote _ => isQuote quote = true
  | .escape => a.reading.place = .template
  | .dollar => a.reading.place = .template
  | _ => True

theorem proper_ofCode (r : Reading) (c : Char) : (ofCode r c).Proper := by
  unfold ofCode
  split_ifs with hquote
  · exact hquote
  · trivial
  · trivial
  · trivial

theorem proper_ofTemplate {r : Reading} (h : r.place = .template) (c : Char) :
    (ofTemplate r c).Proper := by
  unfold ofTemplate
  split_ifs
  · exact h
  · trivial
  · exact h
  · trivial

theorem proper_ofRegex {r : Reading} {inClass : Bool} {p : Pending} {c : Char} {b : Reader}
    (h : ofRegex r inClass p c = some b) : b.Proper := by
  unfold ofRegex at h
  split_ifs at h <;> cases h <;> trivial

theorem Proper.next {a b : Reader} {c : Char} (h : a.Proper) (hnext : a.next c = some b) :
    b.Proper := by
  obtain ⟨r, mode⟩ := a
  cases mode with
  | plain =>
    by_cases hplace : r.place = .template
    · rw [next_plain_template hplace] at hnext
      cases hnext
      exact proper_ofTemplate hplace c
    · rw [next_plain hplace] at hnext
      cases hnext
      exact proper_ofCode r c
  | slash =>
    simp only [Reader.next, ofSlash] at hnext
    split_ifs at hnext
    · cases hnext
      trivial
    · exact proper_ofRegex hnext
    · cases hnext
      exact proper_ofCode _ c
  | line text =>
    simp only [Reader.next] at hnext
    split_ifs at hnext <;> cases hnext <;> trivial
  | quoted quote p =>
    simp only [Reader.next, ofQuoted] at hnext
    split_ifs at hnext <;> cases hnext
    · trivial
    · exact h
  | regex inClass p => exact proper_ofRegex hnext
  | flags =>
    simp only [Reader.next] at hnext
    split_ifs at hnext <;> cases hnext
    · trivial
    · exact proper_ofCode r c
  | escape =>
    cases hnext
    trivial
  | dollar =>
    simp only [Reader.next] at hnext
    split_ifs at hnext <;> cases hnext
    · trivial
    · exact proper_ofTemplate h c

theorem Proper.readAll {a b : Reader} {cs : List Char} (h : a.Proper)
    (hread : a.readAll cs = some b) : b.Proper := by
  induction cs generalizing a with
  | nil =>
    cases hread
    exact h
  | cons c cs ih =>
    obtain ⟨m, hnext, hm⟩ := Option.bind_eq_some_iff.mp hread
    exact ih (h.next hnext) hm

/-- A reader of code at top level. -/
def Top (a : Reader) : Prop :=
  a.reading.layers = [] ∧ (a.mode = .plain ∨ a.mode = .flags ∨ a.mode = .slash)

theorem Rests.top {a : Reader} (h : a.Rests []) : a.Top := by
  cases h with
  | plain t => exact ⟨rfl, .inl rfl⟩
  | flags t => exact ⟨rfl, .inr (.inl rfl)⟩

theorem countBrace_eq_nil {c : Char} (hc : c ≠ '}') {layers : List Layer}
    (h : Reading.countBrace c layers = []) : layers = [] := by
  unfold Reading.countBrace at h
  split at h
  · split_ifs at h
  · exact h

/-- What is taken back before a comment with its braces. -/
def opening (c : Char) : Bool := isSpaceOrTab c || c == '{'

theorem eq_of_opening {c : Char} (h : opening c = true) : c = ' ' ∨ c = '\t' ∨ c = '{' := by
  simpa [opening, isSpaceOrTab, or_assoc] using h

theorem ofCode_opening (r : Reading) {c : Char} (h : opening c = true) :
    ofCode r c = ⟨r.after (.code c), .plain⟩ := by
  rcases eq_of_opening h with rfl | rfl | rfl <;> rfl

theorem layers_of_opening {r : Reading} {c : Char} (h : opening c = true)
    (htop : (ofCode r c).Top) : r.layers = [] := by
  have hc : c ≠ '}' := by
    rintro rfl
    exact absurd h (by decide)
  rw [ofCode_opening r h] at htop
  exact countBrace_eq_nil hc htop.1

theorem place_of_nil {r : Reading} (h : r.layers = []) : r.place = .topLevel := by
  rw [Reading.place, h]

/-- A template is not left over such a character. -/
theorem not_top_ofTemplate {r : Reading} (hplace : r.place = .template) {c : Char}
    (h : opening c = true) : ¬ (ofTemplate r c).Top := by
  have htemplate : ofTemplate r c = ⟨r, .plain⟩ := by
    rcases eq_of_opening h with rfl | rfl | rfl <;> rfl
  rw [htemplate]
  intro htop
  rw [place_of_nil htop.1] at hplace
  cases hplace

/-- Nor is a regular expression. -/
theorem not_top_ofRegex {r : Reading} {inClass : Bool} {p : Pending} {c : Char} {b : Reader}
    (h : opening c = true) (hnext : ofRegex r inClass p c = some b) : ¬ b.Top := by
  have hfeed : c ≠ '\n' := by
    rintro rfl
    exact absurd h (by decide)
  have hslash : c ≠ '/' := by
    rintro rfl
    exact absurd h (by decide)
  obtain ⟨k, q, hmode⟩ : ∃ k q, b.mode = .regex k q := by
    simp only [ofRegex, hfeed, hslash, and_false, false_and, if_false] at hnext
    split_ifs at hnext <;> cases hnext <;> exact ⟨_, _, rfl⟩
  rintro ⟨-, htop⟩
  simp [hmode] at htop

/-- A reader that comes to code at top level over a space, a tab or an opening brace was there
before. -/
theorem top_of_next {a b : Reader} {c : Char} (hc : opening c = true) (h : a.Proper)
    (hnext : a.next c = some b) (hb : b.Top) : a.Top := by
  have hne : ∀ d, opening d = false → c ≠ d := by
    rintro d hd rfl
    simp [hc] at hd
  obtain ⟨r, mode⟩ := a
  cases mode with
  | plain =>
    by_cases hplace : r.place = .template
    · rw [next_plain_template hplace] at hnext
      cases hnext
      exact absurd hb (not_top_ofTemplate hplace hc)
    · rw [next_plain hplace] at hnext
      cases hnext
      exact ⟨layers_of_opening hc hb, .inl rfl⟩
  | flags =>
    simp only [Reader.next] at hnext
    split_ifs at hnext <;> cases hnext
    · exact hb
    · exact ⟨layers_of_opening hc hb, .inr (.inl rfl)⟩
  | slash =>
    simp only [Reader.next, ofSlash, hne '/' (by decide), hne '*' (by decide), if_false] at hnext
    split_ifs at hnext
    · exact absurd hb (not_top_ofRegex hc hnext)
    · cases hnext
      exact ⟨countBrace_eq_nil (by decide) (layers_of_opening hc hb), .inr (.inr rfl)⟩
  | regex inClass p => exact absurd hb (not_top_ofRegex hc hnext)
  | quoted quote p =>
    have hnone : isQuote c = false := by
      rcases eq_of_opening hc with rfl | rfl | rfl <;> rfl
    have hread := ofQuoted_plain (r := r) p (ne_of_isQuote h hnone) (hne '\n' (by decide))
    cases hread.symm.trans hnext
    obtain ⟨-, hmode⟩ := hb
    simp at hmode
  | line text =>
    simp only [Reader.next, hne '\n' (by decide), if_false] at hnext
    cases hnext
    obtain ⟨-, hmode⟩ := hb
    simp at hmode
  | escape =>
    cases hnext
    have hplace : r.place = .template := h
    rw [place_of_nil hb.1] at hplace
    cases hplace
  | dollar =>
    simp only [Reader.next] at hnext
    split_ifs at hnext <;> cases hnext
    · cases hb.1
    · exact absurd hb (not_top_ofTemplate h hc)

theorem top_of_readAll {a b : Reader} {cs : List Char} (hcs : ∀ c ∈ cs, opening c = true)
    (h : a.Proper) (hread : a.readAll cs = some b) (hb : b.Top) : a.Top := by
  induction cs generalizing a with
  | nil =>
    cases hread
    exact hb
  | cons c cs ih =>
    simp only [List.mem_cons, forall_eq_or_imp] at hcs
    obtain ⟨m, hnext, hm⟩ := Option.bind_eq_some_iff.mp hread
    exact top_of_next hcs.1 h hnext (ih hcs.2 (h.next hnext) hm)

/-- After a slash that may open something, the last character is a slash. -/
theorem eq_slash_of_next {a b : Reader} {c : Char} (hnext : a.next c = some b)
    (hb : b.mode = .slash) : c = '/' := by
  have hcode : ∀ r, (ofCode r c).mode = .slash → c = '/' := by
    intro r hmode
    unfold ofCode at hmode
    split_ifs at hmode with _ _ hslash
    exact hslash
  have htemplate : ∀ r, (ofTemplate r c).mode ≠ .slash := by
    intro r hmode
    unfold ofTemplate at hmode
    split_ifs at hmode
  have hregex : ∀ r inClass p, ofRegex r inClass p c = some b → c = '/' := by
    intro r inClass p hregex
    unfold ofRegex at hregex
    split_ifs at hregex <;> cases hregex <;> cases hb
  obtain ⟨r, mode⟩ := a
  cases mode with
  | plain =>
    by_cases hplace : r.place = .template
    · rw [next_plain_template hplace] at hnext
      cases hnext
      exact absurd hb (htemplate r)
    · rw [next_plain hplace] at hnext
      cases hnext
      exact hcode r hb
  | slash =>
    simp only [Reader.next, ofSlash] at hnext
    split_ifs at hnext
    · assumption
    · exact hregex _ _ _ hnext
    · cases hnext
      exact hcode _ hb
  | regex inClass p => exact hregex _ _ _ hnext
  | flags =>
    simp only [Reader.next] at hnext
    split_ifs at hnext <;> cases hnext
    · cases hb
    · exact hcode r hb
  | line text =>
    simp only [Reader.next] at hnext
    split_ifs at hnext <;> cases hnext <;> cases hb
  | quoted quote p =>
    simp only [Reader.next, ofQuoted] at hnext
    split_ifs at hnext <;> cases hnext <;> cases hb
  | escape =>
    cases hnext
    cases hb
  | dollar =>
    simp only [Reader.next] at hnext
    split_ifs at hnext <;> cases hnext
    · cases hb
    · exact absurd hb (htemplate r)

end Reader

/-! ### Following what is written -/

/-- A reader that has read what a scan has written, and is where the scan is, up to the tracker. -/
def Shadowed (s : State) : Prop :=
  ∃ a : Reader, Reader.readAll {} s.out.reverse = some a ∧ a.Acts true s.reading s.rest

section Following

variable {s : State} {l : Lexeme} {rest : List Char}

/-- The tracker of what has been written is the one of a reader that has read it. -/
theorem written_eq (o : ScanOptions) {a : Reader}
    (hread : Reader.readAll {} s.out.reverse = some a) (hmode : a.mode = .plain ∨ a.mode = .flags) :
    s.written o = a.reading.tracker := by
  have hends : a.ends = true := by
    rcases hmode with hmode | hmode <;> rw [Reader.ends, hmode]
  have hrun := run_of_read o { rest := s.out.reverse } Reader.acts_self hread hends
  rw [hrun.2.2 hmode]
  rfl

/-- What is copied is read. -/
theorem Shadowed.copy {o : ScanOptions} (h : Shadowed s) (hfits : Fits s.reading l rest)
    (hrest : s.rest = l.text ++ rest) (hcomment : l.isComment = false)
    (hallows : s.allows o l rest = true) : Shadowed (absorb s l rest) := by
  obtain ⟨a, hread, hacts⟩ := h
  simp only [State.allows, Bool.and_eq_true, Bool.not_eq_true', Bool.or_eq_true,
    beq_iff_eq] at hallows
  obtain ⟨⟨htracker, hhangs⟩, -⟩ := hallows
  rw [hrest] at hacts
  have hasks : l.asks rest = true →
      a.reading.tracker.canStartRegex = s.reading.tracker.canStartRegex := by
    intro hl
    obtain ⟨hplace, cs, hslash⟩ := Reader.slash_of_asks hfits hl
    rw [hslash, List.cons_append] at hacts
    rw [← written_eq o hread (hacts.reading_slash hplace).2.2]
    exact htracker.resolve_left (by simp [hl])
  obtain ⟨b, hb, hbacts⟩ := hfits.reads hacts hcomment hasks hhangs
  refine ⟨b, ?_, ?_⟩
  · rw [out_absorb s hfits, leaves_of_not_comment hcomment, List.reverse_append,
      List.reverse_reverse, Reader.readAll_append, hread]
    exact hb
  · rw [reading_absorb, absorb_rest]
    exact hbacts.stale

/-- Of a comment, line ends are read. -/
theorem Shadowed.comment (h : Shadowed s) (hfits : Fits s.reading l rest)
    (hrest : s.rest = l.text ++ rest) (hcomment : l.isComment = true) :
    Shadowed (absorb s l rest) := by
  obtain ⟨a, hread, hacts⟩ := h
  obtain ⟨hplace, cs, hcs, hlayers, hendings⟩ : s.reading.place ≠ .template ∧
      ∃ cs, s.rest = '/' :: cs ∧ (s.reading.after l).layers = s.reading.layers ∧
        ∀ c ∈ l.leaves, isBlank c = true := by
    cases hfits with
    | lineComment hplace _ hend =>
      refine ⟨hplace, _, hrest, rfl, ?_⟩
      cases hend <;> simp [Lexeme.leaves] <;> decide
    | blockComment hplace _ =>
      refine ⟨hplace, _, hrest, rfl, ?_⟩
      simp +contextual [Lexeme.leaves, List.mem_replicate, show isBlank '\n' = true by decide]
    | _ => simp [Lexeme.isComment] at hcomment
  rw [hcs] at hacts
  obtain ⟨b, hb, hrests⟩ := (hacts.rests hplace).blanks hplace hendings
  refine ⟨b, ?_, ?_⟩
  · rw [out_absorb s hfits, List.reverse_append, List.reverse_reverse, Reader.readAll_append, hread]
    exact hb
  · rw [reading_absorb, absorb_rest]
    refine Reader.Rests.acts (hlayers.symm ▸ hrests) ?_ rest
    rwa [Reading.place, hlayers]

/-- What was written ends in the characters that `dropBrace` takes back. -/
theorem out_of_followsBrace {out : List Char} (h : followsBrace out = true) :
    ∃ taken, out = taken ++ dropBrace out ∧ ∀ c ∈ taken, Reader.opening c = true := by
  have hblank : ∀ {cs : List Char} {c : Char}, c ∈ cs.takeWhile isSpaceOrTab →
      Reader.opening c = true := fun hc => by simp [Reader.opening, List.mem_takeWhile_imp hc]
  rw [followsBrace, beq_iff_eq, List.head?_eq_some_iff] at h
  obtain ⟨back, hback⟩ := h
  refine ⟨out.takeWhile isSpaceOrTab ++ '{' :: back.takeWhile isSpaceOrTab, ?_, ?_⟩
  · rw [dropBrace, hback, List.drop_one, List.tail_cons, List.append_assoc, List.cons_append,
      List.takeWhile_append_dropWhile, ← hback, List.takeWhile_append_dropWhile]
  · intro c hc
    rcases List.mem_append.mp hc with hc | hc
    · exact hblank hc
    · rcases List.mem_cons.mp hc with rfl | hc
      · rfl
      · exact hblank hc

/-- Where braces are taken back, the reader is between lexemes of code before them. -/
theorem rests_dropBrace (h : Shadowed s) (hframes : s.frames = []) {cs : List Char}
    (hrest : s.rest = '/' :: cs) (hbrace : followsBrace s.out = true)
    (hslash : (dropBrace s.out).head? ≠ some '/') :
    ∃ a : Reader, Reader.readAll {} (dropBrace s.out).reverse = some a ∧ a.Rests [] := by
  obtain ⟨b, hread, hacts⟩ := h
  have hlayers : s.reading.layers = [] := by simp [State.reading, hframes]
  have hplace : s.reading.place ≠ .template := by simp [Reader.place_of_nil hlayers]
  rw [hrest] at hacts
  have htop := hacts.rests hplace
  rw [hlayers] at htop
  obtain ⟨taken, hout, htaken⟩ := out_of_followsBrace hbrace
  rw [hout, List.reverse_append] at hread
  obtain ⟨a, hfront, hback⟩ := Reader.readAll_front hread
  have hproper : a.Proper := Reader.Proper.readAll (a := {}) trivial hfront
  obtain ⟨hnil, hmode⟩ := Reader.top_of_readAll (by simpa using htaken) hproper hback htop.top
  refine ⟨a, hfront, ?_⟩
  obtain ⟨⟨layers, t⟩, mode⟩ := a
  obtain rfl : layers = [] := hnil
  rcases hmode with rfl | rfl | rfl
  · exact .plain t
  · exact .flags t
  · -- a slash that waits for the next character was written last
    exfalso
    generalize dropBrace s.out = out at hfront hslash
    cases out with
    | nil => cases hfront
    | cons c out =>
      rw [List.reverse_cons] at hfront
      obtain ⟨m, -, hlast⟩ := Reader.readAll_front hfront
      obtain ⟨n, hnext, hn⟩ := Option.bind_eq_some_iff.mp hlast
      cases hn
      exact hslash (congrArg some (Reader.eq_slash_of_next hnext rfl))

/-- Of a comment that takes its braces with it, line feeds are read instead of the braces. -/
theorem Shadowed.braces {o : ScanOptions} (h : Shadowed s) (hframes : s.frames = [])
    {cs : List Char} (hrest : s.rest = '/' :: cs) (hbrace : followsBrace s.out = true)
    {body tail : List Char} (hallows : s.allows o (.jsxComment body tail) rest = true) :
    Shadowed (absorb s (.jsxComment body tail) rest) := by
  have hslash : (dropBrace s.out).head? ≠ some '/' := by
    rw [State.allows, Bool.and_eq_true] at hallows
    simpa using hallows.2
  obtain ⟨a, hread, hrests⟩ := rests_dropBrace h hframes hrest hbrace hslash
  have hlayers : s.reading.layers = [] := by simp [State.reading, hframes]
  have hplace : s.reading.place ≠ .template := by simp [Reader.place_of_nil hlayers]
  rw [← hlayers] at hrests
  have hfeeds : ∀ c ∈ (feeds body).reverse, isBlank c = true := by
    simp +contextual [feeds_eq, List.mem_replicate, show isBlank '\n' = true by decide]
  obtain ⟨b, hb, hrests⟩ := hrests.blanks hplace hfeeds
  refine ⟨b, ?_, ?_⟩
  · have hout : (absorb s (.jsxComment body tail) rest).out = feeds body ++ dropBrace s.out := rfl
    rw [hout, List.reverse_append, Reader.readAll_append, hread]
    exact hb
  · exact Reader.Rests.acts (r := s.reading.after (.jsxComment body tail)) hrests hplace _

/-- **A reader follows what a scan of a steady source writes, step by step.** -/
theorem Shadowed.step {o : ScanOptions} (h : Shadowed s) {c : Char} {cs : List Char}
    (hrest : s.rest = c :: cs)
    (hallows : s.allows o (next o s c cs).1 (next o s c cs).2 = true) :
    Shadowed (step o s c cs) := by
  have htext := next_append o s c cs
  rw [Scan.step]
  rcases next_cases o s c cs with hsame | ⟨body, blanks, rest, hframes, rfl, hbrace, -, hjsx, -⟩
  · have hfits := fits_next s c cs
    rw [← hsame] at hfits
    by_cases hcomment : (next o s c cs).1.isComment = true
    · exact h.comment hfits (hrest.trans htext.symm) hcomment
    · exact h.copy hfits (hrest.trans htext.symm) (by simpa using hcomment) hallows
  · rw [hjsx] at hallows ⊢
    exact h.braces hframes hrest hbrace hallows

/-- What a scan of a steady source writes is read to its end. -/
theorem Shadowed.run (o : ScanOptions) (h : Shadowed s) (hsteady : steady o s = true) :
    ∃ e, Reader.readAll {} (run o s).out.reverse = some e ∧ e.ends = true := by
  induction s using scan_induction o with
  | hnil s hrest =>
    obtain ⟨a, hread, hacts⟩ := h
    rw [hrest] at hacts
    rw [run_nil o hrest]
    cases hacts with
    | stop hends => exact ⟨a, hread, hends⟩
  | hcons s c cs hrest ih =>
    rw [steady_cons o hrest, Bool.and_eq_true] at hsteady
    rw [run_cons o hrest]
    exact ih (h.step hrest hsteady.1) hsteady.2

end Following

end Scan

/-- **The stripped text of a steady source holds no comments.** -/
theorem clear_of_steady (o : ScanOptions) {source : String}
    (h : Scan.steady o { rest := source.toList } = true) :
    Clear (strip o source).text.toList := by
  have hstart : Scan.Shadowed { rest := source.toList } :=
    ⟨{}, rfl, Scan.Reader.acts_self⟩
  obtain ⟨e, hread, hends⟩ := hstart.run o h
  refine ⟨e, ?_, hends⟩
  rw [strip, String.toList_ofList]
  exact hread

end Uncomment
