/-
# What each kind of lexeme looks like

The readers of `Scan.Read` say how many characters a lexeme takes. Here the kinds of lexeme
are described on their own, by the texts that belong to them and by what may follow: the
inside of a string is made of escape pairs and of characters other than its quote, a
backslash and a line feed; a block comment ends at the first closing delimiter; and so on.
Which kinds are possible at a place, and whether a slash divides there, depends on the
templates and interpolations that are open and on the tracker, which is a `Reading`.

Every lexeme that is read fits the description of its kind, as long as no comment takes
braces with it (`fits_next`).

Key definitions: `QuotedBody`, `RegexBody`, `Scan.Reading`, `Scan.Fits`.
Key theorems: `Scan.fits_next`.
-/
import Mathlib.Data.List.TakeWhile
import Uncomment.Scan.Step

namespace Uncomment

open Text

theorem add_length_cons (n : Nat) (c : Char) (cs : List Char) :
    n + 1 + cs.length = n + (c :: cs).length := by
  rw [List.length_cons, Nat.add_right_comm, Nat.add_assoc]

/-! ### Strings -/

/-- The inside of a string: escape pairs, and characters other than its quote, a backslash and
a line feed. -/
inductive QuotedBody (quote : Char) : List Char → Prop where
  | nil : QuotedBody quote []
  | escape (c : Char) {cs : List Char} :
      QuotedBody quote cs → QuotedBody quote ('\\' :: c :: cs)
  | plain {c : Char} {cs : List Char} :
      c ≠ quote → c ≠ '\\' → c ≠ '\n' → QuotedBody quote cs → QuotedBody quote (c :: cs)

/-- How a string ends: at its quote, or unclosed at a line feed, at the end of the text or at a
backslash that is the last character. -/
inductive QuotedEnd (quote : Char) : Bool → List Char → List Char → Prop where
  | quote (rest : List Char) : QuotedEnd quote true [quote] rest
  | feed (rest : List Char) : QuotedEnd quote false ['\n'] rest
  | stop : QuotedEnd quote false [] []
  | backslash : QuotedEnd quote false ['\\'] []

theorem parts_nil {body ending rest : List Char}
    (h : ∀ c cs, body ++ (ending ++ rest) = c :: cs → False) :
    body = [] ∧ ending = [] ∧ rest = [] := by
  cases hparts : body ++ (ending ++ rest) with
  | nil => simpa using hparts
  | cons c cs => exact (h c cs hparts).elim

/-- A string is an inside and an ending. -/
theorem quotedExtent_spec (quote : Char) (n : Nat) (cs : List Char) :
    ∃ body ending rest, cs = body ++ (ending ++ rest) ∧ QuotedBody quote body ∧
      QuotedEnd quote (quotedExtent quote n cs).closed ending rest ∧
      (quotedExtent quote n cs).length = n + (body ++ ending).length := by
  fun_induction quotedExtent quote n cs with
  | case1 n => exact ⟨[], [], [], rfl, .nil, .stop, rfl⟩
  | case2 n c cs ih =>
    obtain ⟨body, ending, rest, rfl, hbody, hend, hlen⟩ := ih
    refine ⟨'\\' :: c :: body, ending, rest, rfl, .escape c hbody, hend, ?_⟩
    rw [hlen, add_length_cons (n + 1) c, add_length_cons n '\\']
    rfl
  | case3 n cs _ => exact ⟨[], [quote], cs, rfl, .nil, .quote cs, rfl⟩
  | case4 n cs _ _ => exact ⟨[], ['\n'], cs, rfl, .nil, .feed cs, rfl⟩
  | case5 n c cs hesc hquote hfeed ih =>
    obtain ⟨body, ending, rest, rfl, hbody, hend, hlen⟩ := ih
    by_cases hc : c = '\\'
    · -- a backslash without a character after it
      subst hc
      obtain ⟨rfl, rfl, rfl⟩ := parts_nil (fun d ds h => hesc d ds rfl h)
      cases hend
      exact ⟨[], ['\\'], [], rfl, .nil, .backslash, hlen⟩
    · refine ⟨c :: body, ending, rest, rfl, .plain hquote hc hfeed hbody, hend, ?_⟩
      exact hlen.trans (add_length_cons n c _)

/-! ### Regular expressions -/

/-- The inside of a regular expression, from a place inside a character class or outside of one
to another such place: escape pairs, brackets that open or close a class, and characters
other than these, a line feed and, outside a class, a slash. -/
inductive RegexBody : Bool → List Char → Bool → Prop where
  | nil (inClass : Bool) : RegexBody inClass [] inClass
  | escape (c : Char) {cs : List Char} {a b : Bool} :
      RegexBody a cs b → RegexBody a ('\\' :: c :: cs) b
  | openClass {cs : List Char} {b : Bool} : RegexBody true cs b → RegexBody false ('[' :: cs) b
  | closeClass {cs : List Char} {b : Bool} : RegexBody false cs b → RegexBody true (']' :: cs) b
  | inside {c : Char} {cs : List Char} {b : Bool} :
      c ≠ '\\' → c ≠ '\n' → c ≠ ']' → RegexBody true cs b → RegexBody true (c :: cs) b
  | outside {c : Char} {cs : List Char} {b : Bool} :
      c ≠ '\\' → c ≠ '\n' → c ≠ '[' → c ≠ '/' → RegexBody false cs b → RegexBody false (c :: cs) b

/-- How a regular expression ends: at a slash outside a class with all the flags after it, or
unclosed before a line feed, at the end of the text or at a backslash that is the last
character. -/
inductive RegexEnd : Bool → Bool → List Char → List Char → Prop where
  | slash {flags rest : List Char} :
      (∀ c ∈ flags, isAlphabetic c) → (∀ c ∈ rest.head?, ¬ isAlphabetic c) →
      RegexEnd false true ('/' :: flags) rest
  | feed (inClass : Bool) (rest : List Char) : RegexEnd inClass false [] ('\n' :: rest)
  | stop (inClass : Bool) : RegexEnd inClass false [] []
  | backslash (inClass : Bool) : RegexEnd inClass false ['\\'] []

theorem flags_end (cs : List Char) :
    RegexEnd false true ('/' :: cs.takeWhile isAlphabetic) (cs.dropWhile isAlphabetic) := by
  refine .slash (fun c hc => ?_) (fun c hc => ?_)
  · exact List.mem_takeWhile_imp hc
  · have hne : cs.dropWhile isAlphabetic ≠ [] := by
      intro h
      simp [h] at hc
    have hhead := List.head_dropWhile_not isAlphabetic hne
    rw [List.head?_eq_some_head hne, Option.mem_some_iff] at hc
    simpa [← hc] using hhead

/-- A regular expression is an inside and an ending. -/
theorem regexExtent_spec (inClass : Bool) (n : Nat) (cs : List Char) :
    ∃ body ending rest stop, cs = body ++ (ending ++ rest) ∧ RegexBody inClass body stop ∧
      RegexEnd stop (regexExtent inClass n cs).closed ending rest ∧
      (regexExtent inClass n cs).length = n + (body ++ ending).length := by
  fun_induction regexExtent inClass n cs with
  | case1 inClass n => exact ⟨[], [], [], inClass, rfl, .nil _, .stop _, rfl⟩
  | case2 inClass n c cs ih =>
    obtain ⟨body, ending, rest, b, rfl, hbody, hend, hlen⟩ := ih
    refine ⟨'\\' :: c :: body, ending, rest, b, rfl, .escape c hbody, hend, ?_⟩
    rw [hlen, add_length_cons (n + 1) c, add_length_cons n '\\']
    rfl
  | case3 inClass n c cs hesc hopen ih =>
    obtain ⟨body, ending, rest, b, rfl, hbody, hend, hlen⟩ := ih
    obtain ⟨rfl, hout⟩ := hopen
    obtain rfl : inClass = false := by simpa using hout
    exact ⟨'[' :: body, ending, rest, b, rfl, .openClass hbody, hend,
      hlen.trans (add_length_cons n '[' _)⟩
  | case4 inClass n c cs hesc hopen hclose ih =>
    obtain ⟨body, ending, rest, b, rfl, hbody, hend, hlen⟩ := ih
    obtain ⟨rfl, rfl⟩ := hclose
    exact ⟨']' :: body, ending, rest, b, rfl, .closeClass hbody, hend,
      hlen.trans (add_length_cons n ']' _)⟩
  | case5 inClass n c cs hesc hopen hclose hslash =>
    obtain ⟨rfl, hout⟩ := hslash
    obtain rfl : inClass = false := by simpa using hout
    refine ⟨[], '/' :: cs.takeWhile isAlphabetic, cs.dropWhile isAlphabetic, false, ?_, .nil _,
      flags_end cs, ?_⟩
    · simp
    · exact add_length_cons n '/' _
  | case6 inClass n cs hesc hopen hclose hslash =>
    exact ⟨[], [], '\n' :: cs, inClass, rfl, .nil _, .feed _ _, rfl⟩
  | case7 inClass n c cs hesc hopen hclose hslash hfeed ih =>
    obtain ⟨body, ending, rest, b, rfl, hbody, hend, hlen⟩ := ih
    by_cases hc : c = '\\'
    · -- a backslash without a character after it
      subst hc
      obtain ⟨rfl, rfl, rfl⟩ := parts_nil (fun d ds h => hesc d ds rfl h)
      cases hend
      exact ⟨[], ['\\'], [], inClass, rfl, .nil _, .backslash _, hlen⟩
    · have hbody' : RegexBody inClass (c :: body) b := by
        cases inClass with
        | true => exact .inside hc hfeed (by simpa using hclose) hbody
        | false => exact .outside hc hfeed (by simpa using hopen) (by simpa using hslash) hbody
      exact ⟨c :: body, ending, rest, b, rfl, hbody', hend, hlen.trans (add_length_cons n c _)⟩

/-! ### Comments and directives -/

/-- A block comment after its opening delimiter: it ends at the first closing delimiter, and is
all that is left of the text if there is none. -/
inductive BlockBody : Bool → List Char → List Char → Prop where
  | closed (body rest : List Char) :
      ¬ ['*', '/'] <:+: body ++ ['*'] → BlockBody true (body ++ ['*', '/']) rest
  | stop {body : List Char} : ¬ ['*', '/'] <:+: body → BlockBody false body []

theorem not_infix_cons {c : Char} {cs : List Char}
    (h : ∀ ds, c = '*' → cs = '/' :: ds → False) (hcs : ¬ ['*', '/'] <:+: cs) :
    ¬ ['*', '/'] <:+: c :: cs := by
  rw [List.infix_cons_iff]
  rintro (⟨ds, hds⟩ | hinfix)
  · simp only [List.cons_append, List.nil_append, List.cons.injEq] at hds
    exact h ds hds.1.symm hds.2.symm
  · exact hcs hinfix

/-- A text without a closing delimiter is closed by one that follows it. -/
theorem BlockBody.delimited {body : List Char} (h : ¬ ['*', '/'] <:+: body)
    (rest : List Char) : BlockBody true (body ++ ['*', '/']) rest := by
  refine .closed body rest ?_
  rw [List.infix_concat_iff]
  rintro (⟨front, hfront⟩ | hinfix)
  · have hlast := congrArg List.getLast? hfront
    simp at hlast
  · exact h hinfix

/-- A block comment is found up to its first closing delimiter. -/
theorem blockExtent_spec (n : Nat) (cs : List Char) :
    ∃ body rest, cs = body ++ rest ∧ BlockBody (blockExtent n cs).closed body rest ∧
      (blockExtent n cs).length = n + body.length := by
  fun_induction blockExtent n cs with
  | case1 n => exact ⟨[], [], rfl, .stop (by decide), rfl⟩
  | case2 n cs => exact ⟨['*', '/'], cs, rfl, .closed [] cs (by decide), rfl⟩
  | case3 n c cs hclose ih =>
    obtain ⟨body, rest, rfl, hbody, hlen⟩ := ih
    refine ⟨c :: body, rest, rfl, ?_, ?_⟩
    · generalize (blockExtent (n + 1) (body ++ rest)).closed = closed at hbody
      cases hbody with
      | closed inner _ hinner =>
        refine .closed (c :: inner) rest (not_infix_cons (fun ds hc hds => ?_) hinner)
        -- the first character of `inner ++ "*"` is the one that follows `c`
        cases inner with
        | nil => simp at hds
        | cons d inner =>
          obtain ⟨rfl, -⟩ := List.cons.inj hds
          exact hclose (inner ++ ['*', '/'] ++ rest) hc rfl
      | stop hinner =>
        refine .stop (not_infix_cons (fun ds hc hds => ?_) hinner)
        exact hclose ds hc (by simpa using hds)
    · exact hlen.trans (add_length_cons n c _)

/-- How a line comment ends: at a line feed, at a line feed with the carriage return before it,
or at the end of the text. -/
inductive LineEnd : List Char → List Char → List Char → Prop where
  | feed {body : List Char} (rest : List Char) :
      body.getLast? ≠ some '\r' → LineEnd body ['\n'] rest
  | crlf (body rest : List Char) : LineEnd body ['\r', '\n'] rest
  | stop (body : List Char) : LineEnd body [] []

/-- A whole line: up to and including its line feed, or to the end of the text. -/
inductive FullLine : List Char → List Char → Prop where
  | feed (line rest : List Char) : '\n' ∉ line → FullLine (line ++ ['\n']) rest
  | stop {line : List Char} : '\n' ∉ line → FullLine line []

/-- A line is found up to its line feed. -/
theorem lineExtent_spec (n : Nat) (cs : List Char) :
    ∃ line rest, cs = line ++ rest ∧ FullLine line rest ∧
      (lineExtent n cs).length = n + line.length := by
  fun_induction lineExtent n cs with
  | case1 n => exact ⟨[], [], rfl, .stop (by simp), rfl⟩
  | case2 n cs => exact ⟨['\n'], cs, rfl, .feed [] cs (by simp), rfl⟩
  | case3 n c cs hc ih =>
    obtain ⟨line, rest, rfl, hline, hlen⟩ := ih
    refine ⟨c :: line, rest, rfl, ?_, ?_⟩
    · cases hline with
      | feed line _ h => exact .feed (c :: line) rest (by simp [h, Ne.symm hc])
      | stop h => exact .stop (by simp [h, Ne.symm hc])
    · exact hlen.trans (add_length_cons n c _)

theorem takeWhile_append_of_mem {line : List Char} (rest : List Char) (h : '\n' ∈ line) :
    (line ++ rest).takeWhile (· ≠ '\n') = line.takeWhile (· ≠ '\n') := by
  rw [List.takeWhile_append, if_neg]
  intro hlen
  have hall := List.takeWhile_eq_self_iff.mp ((List.takeWhile_prefix _).eq_of_length hlen)
  simpa using hall '\n' h

theorem slashes_of_isDirective {cs : List Char} (h : isDirective cs = true) :
    ['/', '/', '/'] <+: cs := by
  unfold isDirective at h
  split at h
  · next cs => exact ⟨cs, rfl⟩
  · simp at h

/-- Whether a text starts with a directive is settled by its first line. -/
theorem isDirective_takeWhile (cs : List Char) :
    isDirective (cs.takeWhile (· ≠ '\n')) = isDirective cs := by
  by_cases hs : ['/', '/', '/'] <+: cs
  · obtain ⟨cs, rfl⟩ := hs
    simp [isDirective, List.takeWhile_idem]
  · have hs' : ¬ ['/', '/', '/'] <+: cs.takeWhile (· ≠ '\n') := fun h =>
      hs (h.trans (List.takeWhile_prefix _))
    rw [Bool.eq_false_iff.mpr (mt slashes_of_isDirective hs),
      Bool.eq_false_iff.mpr (mt slashes_of_isDirective hs')]

theorem isDirective_append_of_mem {line : List Char} (rest : List Char) (h : '\n' ∈ line) :
    isDirective (line ++ rest) = isDirective line := by
  rw [← isDirective_takeWhile, takeWhile_append_of_mem rest h, isDirective_takeWhile]

theorem isDirective_of_fullLine {line rest : List Char} (h : FullLine line rest) :
    isDirective (line ++ rest) = isDirective line := by
  cases h with
  | feed line rest _ => exact isDirective_append_of_mem rest (by simp)
  | stop _ => rw [List.append_nil]

theorem isDirective_of_lineEnd {body ending rest : List Char} (h : LineEnd body ending rest) :
    isDirective ((Lexeme.lineComment body ending).text ++ rest) =
      isDirective (Lexeme.lineComment body ending).text := by
  cases h with
  | feed rest _ => exact isDirective_append_of_mem rest (by simp [Lexeme.text])
  | crlf rest => exact isDirective_append_of_mem rest (by simp [Lexeme.text])
  | stop => rw [List.append_nil]

namespace Scan

/-! ### Readings -/

/-- The kinds of place in a text. -/
inductive Place where
  | topLevel
  | template
  | interpolation
deriving DecidableEq, Repr

/-- A template or interpolation that is open. -/
inductive Layer where
  | template
  | interpolation (depth : Nat)
deriving DecidableEq, Repr

/-- What decides how a text is read on: the templates and interpolations that are open,
innermost first, and the tracker. -/
structure Reading where
  layers : List Layer := []
  tracker : Tracker := {}
deriving DecidableEq, Repr

namespace Reading

/-- The kind of place that is reached. -/
def place (r : Reading) : Place :=
  match r.layers with
  | [] => .topLevel
  | .template :: _ => .template
  | .interpolation _ :: _ => .interpolation

/-- The open layers after a character of code: braces are counted inside an interpolation, and
the last one closes it. -/
def countBrace (c : Char) : List Layer → List Layer
  | .interpolation depth :: layers =>
    if c = '{' then .interpolation (depth + 1) :: layers
    else if c = '}' then
      if depth = 1 then layers else .interpolation (depth - 1) :: layers
    else .interpolation depth :: layers
  | layers => layers

/-- The reading after a lexeme. -/
def after (r : Reading) : Lexeme → Reading
  | .code c => ⟨countBrace c r.layers, r.tracker.update c⟩
  | .quoted quote _ _ => { r with tracker := .resetTo quote }
  | .regex _ _ => { r with tracker := .resetTo '/' }
  | .openTemplate => { r with layers := .template :: r.layers }
  | .templateText _ => r
  | .closeTemplate => ⟨r.layers.tail, .resetTo backtick⟩
  | .openInterpolation => { r with layers := .interpolation 1 :: r.layers }
  | .directive _ => { r with tracker := .resetTo '\n' }
  | .lineComment _ _ => { r with tracker := .resetTo '\n' }
  | .blockComment _ _ => { r with tracker := r.tracker.clearWord }
  | .jsxComment _ _ => { r with tracker := r.tracker.clearWord }

/-- Whether a slash is an operator: it opens neither a comment nor a regular expression. -/
def Divides (r : Reading) (rest : List Char) : Prop :=
  rest.head? ≠ some '/' ∧ rest.head? ≠ some '*' ∧
    (r.tracker.canStartRegex && opensRegex rest) = false

end Reading

/-- The layer of a frame. -/
def Frame.layer : Frame → Layer
  | template _ => .template
  | interpolation _ depth => .interpolation depth

/-- The reading at a state. -/
def State.reading (s : State) : Reading := ⟨s.frames.map Frame.layer, s.tracker⟩

theorem countBrace_layer (c : Char) (frames : List Frame) :
    (countBrace c frames).map Frame.layer = Reading.countBrace c (frames.map Frame.layer) := by
  cases frames with
  | nil => rfl
  | cons frame frames =>
    cases frame with
    | template start => rfl
    | interpolation start depth =>
      simp only [countBrace, List.map_cons, Frame.layer, Reading.countBrace]
      split_ifs <;> rfl

/-- The reading after a lexeme is that of the state after it. -/
theorem reading_absorb (s : State) (l : Lexeme) (rest : List Char) :
    (absorb s l rest).reading = s.reading.after l := by
  cases l with
  | code c => simp only [absorb, State.reading, Reading.after, countBrace_layer]
  | closeTemplate => simp only [absorb, State.reading, Reading.after, List.map_tail]
  | _ => rfl

/-! ### The kinds of lexeme -/

/-- Whether a lexeme that `rest` follows fits the description of its kind at the place that a
reading has reached. Comments and literals start in code only, and directives at top level
only. -/
inductive Fits (r : Reading) : Lexeme → List Char → Prop where
  | code {c : Char} {rest : List Char} :
      r.place ≠ .template → isQuote c = false → c ≠ backtick → (c = '/' → r.Divides rest) →
      Fits r (.code c) rest
  | quoted {quote : Char} {body ending rest : List Char} {closed : Bool} :
      r.place ≠ .template → isQuote quote = true →
      QuotedBody quote body → QuotedEnd quote closed ending rest →
      Fits r (.quoted quote (body ++ ending) closed) rest
  | regex {body ending rest : List Char} {closed inClass : Bool} :
      r.place ≠ .template → r.tracker.canStartRegex = true →
      opensRegex (body ++ (ending ++ rest)) = true →
      RegexBody false body inClass → RegexEnd inClass closed ending rest →
      Fits r (.regex (body ++ ending) closed) rest
  | openTemplate (rest : List Char) : r.place ≠ .template → Fits r .openTemplate rest
  | escape (c : Char) (rest : List Char) :
      r.place = .template → Fits r (.templateText ['\\', c]) rest
  | backslash : r.place = .template → Fits r (.templateText ['\\']) []
  | templateText {c : Char} {rest : List Char} :
      r.place = .template → c ≠ '\\' → c ≠ backtick → (c = '$' → rest.head? ≠ some '{') →
      Fits r (.templateText [c]) rest
  | closeTemplate (rest : List Char) : r.place = .template → Fits r .closeTemplate rest
  | openInterpolation (rest : List Char) : r.place = .template → Fits r .openInterpolation rest
  | directive {line rest : List Char} :
      r.place = .topLevel → isDirective line = true → FullLine line rest →
      Fits r (.directive line) rest
  | lineComment {body ending rest : List Char} :
      r.place ≠ .template → '\n' ∉ body → LineEnd body ending rest →
      (r.place = .topLevel → isDirective (Lexeme.lineComment body ending).text = false) →
      Fits r (.lineComment body ending) rest
  | blockComment {body rest : List Char} {closed : Bool} :
      r.place ≠ .template → BlockBody closed body rest → Fits r (.blockComment body closed) rest

/-- The options under which no comment takes braces with it. -/
abbrev keepBraces : ScanOptions := { jsxComments := false }

theorem take_drop_parts {n : Nat} {cs front rest : List Char} (hcs : cs = front ++ rest)
    (hn : n = 0 + front.length) : cs.take n = front ∧ cs.drop n = rest := by
  subst hcs hn
  simp

theorem fits_nextQuoted {r : Reading} {quote : Char} (hplace : r.place ≠ .template)
    (hquote : isQuote quote = true) (cs : List Char) :
    Fits r (nextQuoted quote cs).1 (nextQuoted quote cs).2 := by
  obtain ⟨body, ending, rest, hcs, hbody, hend, hlen⟩ := quotedExtent_spec quote 0 cs
  obtain ⟨htake, hdrop⟩ := take_drop_parts (hcs.trans (List.append_assoc ..).symm) hlen
  simp only [nextQuoted, cut, htake, hdrop]
  exact .quoted hplace hquote hbody hend

theorem fits_nextRegex {r : Reading} (hplace : r.place ≠ .template)
    (hstart : r.tracker.canStartRegex = true) {cs : List Char} (hopens : opensRegex cs = true) :
    Fits r (nextRegex cs).1 (nextRegex cs).2 := by
  obtain ⟨body, ending, rest, inClass, hcs, hbody, hend, hlen⟩ := regexExtent_spec false 0 cs
  obtain ⟨htake, hdrop⟩ := take_drop_parts (hcs.trans (List.append_assoc ..).symm) hlen
  simp only [nextRegex, cut, htake, hdrop]
  exact .regex hplace hstart (hcs ▸ hopens) hbody hend

theorem fits_nextLineComment {r : Reading} (hplace : r.place ≠ .template) {cs : List Char}
    (hdir : r.place = .topLevel → isDirective ('/' :: '/' :: cs) = false) :
    Fits r (nextLineComment cs).1 (nextLineComment cs).2 := by
  have hwhole := nextLineComment_append cs
  have hbody : '\n' ∉ cs.takeWhile (· ≠ '\n') := fun h => by
    simpa using List.mem_takeWhile_imp h
  unfold nextLineComment at hwhole ⊢
  cases hdrop : cs.dropWhile (· ≠ '\n') with
  | nil =>
    simp only [hdrop, List.append_nil] at hwhole ⊢
    exact .lineComment hplace hbody (.stop _) (fun htop => hwhole ▸ hdir htop)
  | cons feed rest =>
    have hfeed := List.head?_dropWhile_not (fun c : Char => decide (c ≠ '\n')) cs
    rw [hdrop] at hfeed
    obtain rfl : feed = '\n' := by simpa using hfeed
    simp only [hdrop] at hwhole ⊢
    split_ifs at hwhole ⊢
    · refine .lineComment hplace (fun h => hbody (List.dropLast_subset _ h)) (.crlf _ _) ?_
      intro htop
      rw [← isDirective_of_lineEnd (.crlf _ rest), hwhole, hdir htop]
    · next hret =>
      refine .lineComment hplace hbody (.feed _ hret) ?_
      intro htop
      rw [← isDirective_of_lineEnd (.feed rest hret), hwhole, hdir htop]

theorem fits_nextBlockComment {r : Reading} (hplace : r.place ≠ .template)
    {alone : List Char → Bool} (halone : ∀ rest, alone rest = false) (cs : List Char) :
    Fits r (nextBlockComment alone cs).1 (nextBlockComment alone cs).2 := by
  obtain ⟨body, rest, hcs, hbody, hlen⟩ := blockExtent_spec 0 cs
  obtain ⟨htake, hdrop⟩ := take_drop_parts hcs hlen
  simp only [nextBlockComment, halone, Bool.and_false, Bool.false_eq_true, if_false, htake, hdrop]
  exact .blockComment hplace hbody

theorem fits_nextSlash {s : State} {ctx : Context} (hplace : s.reading.place ≠ .template)
    (hctx : s.reading.place = .topLevel ↔ ctx = .topLevel) (cs : List Char) :
    Fits s.reading (nextSlash keepBraces s ctx cs).1 (nextSlash keepBraces s ctx cs).2 := by
  unfold nextSlash
  split
  · next hdir =>
    rw [Bool.and_eq_true, beq_iff_eq] at hdir
    obtain ⟨line, rest, hcs, hline, hlen⟩ := lineExtent_spec 0 ('/' :: cs)
    obtain ⟨htake, hdrop⟩ := take_drop_parts hcs hlen
    simp only [cut, htake, hdrop]
    refine .directive (hctx.mpr hdir.1) ?_ hline
    rw [← hdir.2, hcs, isDirective_of_fullLine hline]
  · next hdir =>
    have hnot : s.reading.place = .topLevel → isDirective ('/' :: cs) = false := by
      intro htop
      simpa [hctx.mp htop] using hdir
    split
    · exact fits_nextLineComment hplace hnot
    · exact fits_nextBlockComment hplace (fun rest => by simp [State.bracesGo]) _
    · next hline hblock =>
      split
      · next hregex =>
        rw [Bool.and_eq_true] at hregex
        exact fits_nextRegex hplace hregex.1 hregex.2
      · next hregex =>
        refine .code hplace (by decide) (by decide) (fun _ => ⟨?_, ?_, ?_⟩)
        · intro h
          obtain ⟨ds, rfl⟩ := List.head?_eq_some_iff.mp h
          exact hline ds rfl
        · intro h
          obtain ⟨ds, rfl⟩ := List.head?_eq_some_iff.mp h
          exact hblock ds rfl
        · simpa [State.reading] using hregex

theorem fits_nextCode {s : State} {ctx : Context} (hplace : s.reading.place ≠ .template)
    (hctx : s.reading.place = .topLevel ↔ ctx = .topLevel) (c : Char) (cs : List Char) :
    Fits s.reading (nextCode keepBraces s ctx c cs).1 (nextCode keepBraces s ctx c cs).2 := by
  unfold nextCode
  split_ifs with hquote htick hslash
  · exact fits_nextQuoted hplace hquote cs
  · exact .openTemplate cs hplace
  · exact fits_nextSlash hplace hctx cs
  · exact .code hplace (by simpa using hquote) htick (fun h => absurd h hslash)

theorem fits_nextTemplate {r : Reading} (hplace : r.place = .template) (c : Char)
    (cs : List Char) : Fits r (nextTemplate c cs).1 (nextTemplate c cs).2 := by
  unfold nextTemplate
  split_ifs with hesc htick hopen
  · subst hesc
    cases cs with
    | nil => exact .backslash hplace
    | cons d ds => exact .escape d ds hplace
  · exact .closeTemplate cs hplace
  · exact .openInterpolation cs.tail hplace
  · exact .templateText hplace hesc htick (fun hc hbrace => hopen ⟨hc, hbrace⟩)

/-- In code, lexemes are read in the context of the place. -/
theorem next_eq_nextCode {s : State} (h : s.reading.place ≠ .template) :
    ∃ ctx, (s.reading.place = .topLevel ↔ ctx = .topLevel) ∧
      ∀ o c cs, next o s c cs = nextCode o s ctx c cs := by
  match hframes : s.frames with
  | [] =>
    refine ⟨.topLevel, by simp [Reading.place, State.reading, hframes], fun o c cs => ?_⟩
    rw [next, hframes]
  | .template _ :: _ =>
    refine absurd ?_ h
    rw [State.reading, hframes]
    rfl
  | .interpolation _ _ :: _ =>
    refine ⟨.interpolation, by simp [Reading.place, State.reading, hframes, Frame.layer],
      fun o c cs => ?_⟩
    rw [next, hframes]

/-- In a template, the open frames do not matter further. -/
theorem next_eq_nextTemplate {s : State} (h : s.reading.place = .template) (o : ScanOptions)
    (c : Char) (cs : List Char) : next o s c cs = nextTemplate c cs := by
  match hframes : s.frames with
  | [] =>
    rw [State.reading, hframes] at h
    exact Place.noConfusion h
  | .template _ :: _ => rw [next, hframes]
  | .interpolation _ _ :: _ =>
    rw [State.reading, hframes] at h
    exact Place.noConfusion h

/-- Every lexeme fits the description of its kind. -/
theorem fits_next (s : State) (c : Char) (cs : List Char) :
    Fits s.reading (next keepBraces s c cs).1 (next keepBraces s c cs).2 := by
  by_cases hplace : s.reading.place = .template
  · rw [next_eq_nextTemplate hplace]
    exact fits_nextTemplate hplace c cs
  · obtain ⟨ctx, hctx, hnext⟩ := next_eq_nextCode hplace
    rw [hnext]
    exact fits_nextCode hplace hctx c cs

end Scan

end Uncomment
