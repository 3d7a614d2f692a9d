/-
# Two conventions for line ends

A text whose lines end with a carriage return and a line feed is read like the text whose lines end
with a line feed alone: the same comments are removed, and what is left is the same but for carriage
returns before line feeds. The scan of one text is followed in the other, lexeme by lexeme; a line
feed that is a lexeme of its own becomes two, and a slash at the end of a line may be taken for the
start of a regular expression, but only up to the line feed.

There is one exception. A backslash takes one character along, so in a string or a regular
expression it takes a line feed, but of a carriage return and a line feed only the first. The line
feed then ends the literal, and what follows is read as code.

Key definitions: `crlf`, `unix`, `Returned`, `Lexeme.unbroken`, `Scan.Matched`, `Scan.Abreast`.
Main statement: `strip_crlf`.
-/
import Uncomment.Proofs.Lookahead
import Uncomment.Proofs.Reach

namespace Uncomment

open Text

/-! ### Texts with carriage returns -/

/-- A text with a carriage return before each line feed. -/
def crlf (cs : List Char) : List Char :=
  cs.flatMap fun c => if c = '\n' then ['\r', '\n'] else [c]

/-- A text with each carriage return before a line feed taken away. -/
def unix : List Char → List Char
  | '\r' :: '\n' :: cs => '\n' :: unix cs
  | c :: cs => c :: unix cs
  | [] => []

@[simp] theorem crlf_nil : crlf [] = [] := rfl

@[simp] theorem crlf_feed (cs : List Char) : crlf ('\n' :: cs) = '\r' :: '\n' :: crlf cs := rfl

theorem crlf_cons {c : Char} (h : c ≠ '\n') (cs : List Char) : crlf (c :: cs) = c :: crlf cs := by
  simp [crlf, h]

@[simp] theorem crlf_append (xs ys : List Char) : crlf (xs ++ ys) = crlf xs ++ crlf ys :=
  List.flatMap_append

theorem crlf_of_notMem {cs : List Char} (h : '\n' ∉ cs) : crlf cs = cs := by
  induction cs with
  | nil => rfl
  | cons c cs ih =>
    rw [List.mem_cons, not_or] at h
    rw [crlf_cons (Ne.symm h.1), ih h.2]

theorem head?_crlf (cs : List Char) :
    (crlf cs).head? = if cs.head? = some '\n' then some '\r' else cs.head? := by
  cases cs with
  | nil => rfl
  | cons c cs =>
    by_cases hc : c = '\n'
    · subst hc
      rfl
    · simp [crlf_cons hc, hc]

theorem count_crlf (cs : List Char) : (crlf cs).count '\n' = cs.count '\n' := by
  induction cs with
  | nil => rfl
  | cons c cs ih =>
    by_cases hc : c = '\n'
    · subst hc
      simp [ih]
    · rw [crlf_cons hc, List.count_cons_of_ne hc, List.count_cons_of_ne hc, ih]

/-- A text, and the same with carriage returns before some of its line feeds. -/
inductive Returned : List Char → List Char → Prop where
  | nil : Returned [] []
  | keep {c : Char} {xs ys : List Char} (hc : c ≠ '\r') (h : Returned xs ys) :
      Returned (c :: xs) (c :: ys)
  | feed {xs ys : List Char} (h : Returned xs ys) : Returned ('\n' :: xs) ('\r' :: '\n' :: ys)

namespace Returned

variable {xs ys xs' ys' : List Char}

theorem append (h : Returned xs ys) (h' : Returned xs' ys') :
    Returned (xs ++ xs') (ys ++ ys') := by
  induction h with
  | nil => exact h'
  | keep hc _ ih => exact .keep hc ih
  | feed _ ih => exact .feed ih

theorem refl {cs : List Char} (h : '\r' ∉ cs) : Returned cs cs := by
  induction cs with
  | nil => exact .nil
  | cons c cs ih =>
    rw [List.mem_cons, not_or] at h
    exact .keep (Ne.symm h.1) (ih h.2)

theorem unix_eq (h : Returned xs ys) : unix ys = xs := by
  induction h with
  | nil => rfl
  | @keep c xs ys hc _ ih =>
    rw [unix, ih]
    exact fun _ heq => absurd heq hc
  | feed _ ih => rw [unix, ih]

end Returned

/-- What was written, last character first, and the same with carriage returns. -/
inductive ReturnedBack : List Char → List Char → Prop where
  | nil : ReturnedBack [] []
  | keep {c : Char} {xs ys : List Char} (hc : c ≠ '\r') (h : ReturnedBack xs ys) :
      ReturnedBack (c :: xs) (c :: ys)
  | feed {xs ys : List Char} (h : ReturnedBack xs ys) :
      ReturnedBack ('\n' :: xs) ('\n' :: '\r' :: ys)

namespace ReturnedBack

variable {xs ys xs' ys' : List Char}

theorem reverse (h : ReturnedBack xs ys) : Returned xs.reverse ys.reverse := by
  induction h with
  | nil => exact .nil
  | @keep c xs ys hc _ ih =>
    rw [List.reverse_cons, List.reverse_cons]
    exact ih.append (.keep hc .nil)
  | @feed xs ys _ ih =>
    rw [List.reverse_cons, List.reverse_cons, List.reverse_cons, List.append_assoc]
    exact ih.append (.feed .nil)

theorem write (h : Returned xs ys) (h' : ReturnedBack xs' ys') :
    ReturnedBack (xs.reverse ++ xs') (ys.reverse ++ ys') := by
  induction h generalizing xs' ys' with
  | nil => exact h'
  | keep hc _ ih =>
    rw [List.reverse_cons, List.reverse_cons, List.append_assoc, List.append_assoc]
    exact ih (.keep hc h')
  | feed _ ih =>
    rw [List.reverse_cons, List.reverse_cons, List.reverse_cons, List.append_assoc,
      List.append_assoc, List.append_assoc]
    exact ih (.feed h')

theorem dropBlanks (h : ReturnedBack xs ys) :
    ReturnedBack (xs.dropWhile isSpaceOrTab) (ys.dropWhile isSpaceOrTab) := by
  induction h with
  | nil => exact .nil
  | @keep c xs ys hc h ih =>
    by_cases hblank : isSpaceOrTab c = true
    · rwa [List.dropWhile_cons_of_pos hblank, List.dropWhile_cons_of_pos hblank]
    · rw [List.dropWhile_cons_of_neg hblank, List.dropWhile_cons_of_neg hblank]
      exact .keep hc h
  | feed h _ => exact .feed h

theorem head?_eq (h : ReturnedBack xs ys) : xs.head? = ys.head? := by
  cases h <;> rfl

end ReturnedBack

namespace Scan

theorem followsBrace_returned {xs ys : List Char} (h : ReturnedBack xs ys) :
    followsBrace xs = followsBrace ys := by
  rw [followsBrace, followsBrace, h.dropBlanks.head?_eq]

theorem dropBrace_returned {xs ys : List Char} (h : ReturnedBack xs ys)
    (hbrace : followsBrace xs = true) : ReturnedBack (dropBrace xs) (dropBrace ys) := by
  have hfront := h.dropBlanks
  unfold followsBrace at hbrace
  unfold dropBrace
  generalize xs.dropWhile isSpaceOrTab = front at hbrace hfront
  generalize ys.dropWhile isSpaceOrTab = front' at hfront
  cases hfront with
  | nil => simp at hbrace
  | keep _ hrest => exact hrest.dropBlanks
  | feed _ => simp at hbrace

end Scan

/-! ### Blanks -/

/-- Whether no two ranges of two lists meet. -/
def rangesApart (rs ss : Ranges) : Bool := rs.all fun r => ss.all fun s => r.2 < s.1 || s.2 < r.1

theorem exists_of_inRangesFrom {n : Nat} {rs : Ranges} (h : inRangesFrom n rs = true) :
    ∃ r ∈ rs, r.1 ≤ n ∧ n ≤ r.2 := by
  induction rs with
  | nil => simp [inRangesFrom] at h
  | cons r rs ih =>
    obtain ⟨lo, hi⟩ := r
    simp only [inRangesFrom] at h
    split_ifs at h with hlo hhi
    · exact ⟨(lo, hi), List.mem_cons_self, Nat.le_of_not_lt hlo, hhi⟩
    · obtain ⟨r, hr, hn⟩ := ih h
      exact ⟨r, List.mem_cons_of_mem _ hr, hn⟩

theorem inRanges_of_apart {rs ss : Ranges} (h : rangesApart rs ss = true) {c : Char}
    (hc : inRanges rs c = true) : inRanges ss c = false := by
  rw [Bool.eq_false_iff]
  intro hc'
  obtain ⟨r, hr, hlo, hhi⟩ := exists_of_inRangesFrom hc
  obtain ⟨s, hs, hlo', hhi'⟩ := exists_of_inRangesFrom hc'
  simp only [rangesApart, List.all_eq_true, Bool.or_eq_true, decide_eq_true_eq] at h
  rcases h r hr s hs with hlt | hlt <;> omega

theorem ne_of_isBlank {c d : Char} (h : isBlank c = true) (hd : isBlank d = false) : c ≠ d := by
  rintro rfl
  simp [hd] at h

theorem isQuote_of_isBlank {c : Char} (h : isBlank c = true) : isQuote c = false := by
  simp [isQuote, ne_of_isBlank h (d := '\x22') (by decide),
    ne_of_isBlank h (d := '\x27') (by decide)]

theorem isAlphabetic_of_isBlank {c : Char} (h : isBlank c = true) : isAlphabetic c = false :=
  inRanges_of_apart (by decide +kernel : rangesApart whiteSpace alphabetic = true) h

/-- A blank belongs to no word. -/
theorem isWord_of_isBlank {c : Char} (h : isBlank c = true) : isWord c = false := by
  have hnumber : isNumeric c = false :=
    inRanges_of_apart (by decide +kernel : rangesApart whiteSpace numeric = true) h
  have hline : c ≠ '_' := ne_of_isBlank h (by decide)
  simp [isWord, isAlphabetic_of_isBlank h, hnumber, hline]

/-! ### Comments and directives -/

theorem infix_of_crlf {cs : List Char} (h : ['*', '/'] <:+: crlf cs) : ['*', '/'] <:+: cs := by
  induction cs with
  | nil => exact h
  | cons c cs ih =>
    by_cases hc : c = '\n'
    · subst hc
      rw [crlf_feed, List.infix_cons_iff, List.infix_cons_iff] at h
      rcases h with hp | hp | h
      · simp at hp
      · simp at hp
      · exact List.infix_cons (ih h)
    · rw [crlf_cons hc, List.infix_cons_iff] at h
      rw [List.infix_cons_iff]
      rcases h with ⟨rest, hrest⟩ | h
      · obtain ⟨rfl, htail⟩ := List.cons.inj hrest
        have hhead := head?_crlf cs
        rw [← htail] at hhead
        obtain ⟨cs, rfl⟩ : ∃ rest, cs = '/' :: rest := by
          split at hhead
          · cases hhead
          · exact List.head?_eq_some_iff.mp hhead.symm
        exact Or.inl ⟨cs, rfl⟩
      · exact Or.inr (ih h)

theorem BlockBody.crlf {closed : Bool} {body rest : List Char} (h : BlockBody closed body rest) :
    BlockBody closed (crlf body) (crlf rest) := by
  cases h with
  | closed inner _ hinner =>
    rw [crlf_append]
    refine .closed (Uncomment.crlf inner) _ fun hinfix => hinner (infix_of_crlf ?_)
    rw [crlf_append]
    exact hinfix
  | stop hbody => exact .stop fun hinfix => hbody (infix_of_crlf hinfix)

theorem trim_blank {c : Char} (hblank : isBlank c = true) (cs : List Char) :
    trim (cs ++ [c]) = trim cs := by
  unfold trim trimStart
  rw [List.dropWhile_append]
  split
  · next hempty =>
    rw [List.isEmpty_iff.mp hempty]
    simp [trimEnd, hblank]
  · simp [trimEnd, hblank]

/-- A blank at the end of a line does not make or break a directive. -/
theorem isDirective_blank {c : Char} (hblank : isBlank c = true) (cs : List Char) :
    isDirective (cs ++ [c]) = isDirective cs := by
  by_cases hslashes : ['/', '/', '/'] <+: cs
  · obtain ⟨cs, rfl⟩ := hslashes
    have hline : trim ((cs ++ [c]).takeWhile (· ≠ '\n')) = trim (cs.takeWhile (· ≠ '\n')) := by
      rw [List.takeWhile_append]
      split
      · next hwhole =>
        have hcs := (List.takeWhile_prefix (p := (· ≠ '\n'))).eq_of_length hwhole
        rw [hcs]
        by_cases hc : c = '\n'
        · simp [hc]
        · rw [List.takeWhile_cons_of_pos (by simpa using hc), List.takeWhile_nil,
            trim_blank hblank]
      · rfl
    simp only [List.cons_append, List.nil_append, isDirective, hline]
  · have hslashes' : ¬ ['/', '/', '/'] <+: cs ++ [c] := by
      intro hp
      rcases List.prefix_concat_iff.mp hp with heq | hp
      · have hlast := congrArg List.getLast? heq
        rw [List.getLast?_concat] at hlast
        rw [← Option.some.inj hlast] at hblank
        cases hblank
      · exact hslashes hp
    rw [Bool.eq_false_iff.mpr (mt slashes_of_isDirective hslashes),
      Bool.eq_false_iff.mpr (mt slashes_of_isDirective hslashes')]

/-- A carriage return at the end of a line does not make or break a directive. -/
theorem isDirective_crlf_line {line : List Char} (h : '\n' ∉ line) :
    isDirective (line ++ ['\r', '\n']) = isDirective (line ++ ['\n']) := by
  have hreturn : '\n' ∉ line ++ ['\r'] := by simp [h]
  rw [← isDirective_takeWhile, ← isDirective_takeWhile (line ++ ['\n']),
    (Scan.takeWhile_line h []).1, List.append_cons, (Scan.takeWhile_line hreturn []).1,
    isDirective_blank (by decide)]

/-! ### Literals -/

/-- Whether a line feed is taken along by a backslash. -/
def escapesFeed : List Char → Bool
  | '\\' :: c :: cs => c == '\n' || escapesFeed cs
  | _ :: cs => escapesFeed cs
  | [] => false

theorem escapesFeed_cons {c : Char} (h : c ≠ '\\') (cs : List Char) :
    escapesFeed (c :: cs) = escapesFeed cs := by
  rw [escapesFeed]
  exact fun _ _ heq => absurd heq h

theorem QuotedBody.notMem_feed {quote : Char} {body ending : List Char}
    (h : QuotedBody quote body) (hfeed : escapesFeed (body ++ ending) = false) : '\n' ∉ body := by
  induction h with
  | nil => exact List.not_mem_nil
  | escape c _ ih =>
    simp only [List.cons_append, escapesFeed, Bool.or_eq_false_iff, beq_eq_false_iff_ne] at hfeed
    simp [ih hfeed.2, Ne.symm hfeed.1]
  | plain _ hesc hc _ ih =>
    rw [List.cons_append, escapesFeed_cons hesc] at hfeed
    simp [ih hfeed, Ne.symm hc]

theorem RegexBody.notMem_feed {a b : Bool} {body ending : List Char} (h : RegexBody a body b)
    (hfeed : escapesFeed (body ++ ending) = false) : '\n' ∉ body := by
  induction h with
  | nil => exact List.not_mem_nil
  | escape c _ ih =>
    simp only [List.cons_append, escapesFeed, Bool.or_eq_false_iff, beq_eq_false_iff_ne] at hfeed
    simp [ih hfeed.2, Ne.symm hfeed.1]
  | openClass _ ih =>
    rw [List.cons_append, escapesFeed_cons (by decide)] at hfeed
    simp [ih hfeed]
  | closeClass _ ih =>
    rw [List.cons_append, escapesFeed_cons (by decide)] at hfeed
    simp [ih hfeed]
  | inside hesc hc _ _ ih =>
    rw [List.cons_append, escapesFeed_cons hesc] at hfeed
    simp [ih hfeed, Ne.symm hc]
  | outside hesc hc _ _ _ ih =>
    rw [List.cons_append, escapesFeed_cons hesc] at hfeed
    simp [ih hfeed, Ne.symm hc]

/-- A string may go on with a carriage return. -/
theorem QuotedBody.concat {quote c : Char} {body : List Char} (h : QuotedBody quote body)
    (hquote : c ≠ quote) (hesc : c ≠ '\\') (hfeed : c ≠ '\n') :
    QuotedBody quote (body ++ [c]) := by
  induction h with
  | nil => exact .plain hquote hesc hfeed .nil
  | escape d _ ih => exact .escape d ih
  | plain h₁ h₂ h₃ _ ih => exact .plain h₁ h₂ h₃ ih

/-- A regular expression may go on with a carriage return. -/
theorem RegexBody.concat_return {a b : Bool} {body : List Char} (h : RegexBody a body b) :
    RegexBody a (body ++ ['\r']) b := by
  induction h with
  | nil inClass =>
    cases inClass with
    | true => exact .inside (by decide) (by decide) (by decide) (.nil true)
    | false => exact .outside (by decide) (by decide) (by decide) (by decide) (.nil false)
  | escape c _ ih => exact .escape c ih
  | openClass _ ih => exact .openClass ih
  | closeClass _ ih => exact .closeClass ih
  | inside h₁ h₂ h₃ _ ih => exact .inside h₁ h₂ h₃ ih
  | outside h₁ h₂ h₃ h₄ _ ih => exact .outside h₁ h₂ h₃ h₄ ih

/-- Whether no line feed of a string or a regular expression is taken along by a backslash. -/
def Lexeme.unbroken : Lexeme → Bool
  | .quoted _ body _ => !escapesFeed body
  | .regex body _ => !escapesFeed body
  | _ => true

namespace Scan

/-! ### Chains of lexemes -/

/-- What some lexemes add to the counts. -/
def countsOf (ls : List Lexeme) : Stats := (ls.map Lexeme.counts).foldr (· + ·) {}

/-- Whether lexemes are read one after the other before `rest`, whatever the options are: each
fits, and none is a closed comment, which could take braces with it. -/
inductive Chain : Reading → List Lexeme → List Char → Prop where
  | nil (r : Reading) (rest : List Char) : Chain r [] rest
  | cons {r : Reading} {l : Lexeme} {ls : List Lexeme} {rest : List Char} :
      Fits r l (ls.flatMap Lexeme.text ++ rest) → (∀ body, l ≠ .blockComment body true) →
      Chain (r.after l) ls rest → Chain r (l :: ls) rest

theorem Chain.single {r : Reading} {l : Lexeme} {rest : List Char} (h : Fits r l rest)
    (hopen : ∀ body, l ≠ .blockComment body true) : Chain r [l] rest :=
  .cons h hopen (.nil _ _)

theorem Chain.text_ne {r : Reading} {ls : List Lexeme} {rest : List Char} (h : Chain r ls rest)
    (hne : ls ≠ []) : ls.flatMap Lexeme.text ≠ [] := by
  cases h with
  | nil => exact absurd rfl hne
  | cons hfits _ _ => simp [hfits.text_ne]

theorem joinBraces_of_ne (o : ScanOptions) (s : State) {l : Lexeme}
    (h : ∀ body, l ≠ .blockComment body true) (rest : List Char) :
    s.joinBraces o (l, rest) = (l, rest) := by
  unfold State.joinBraces
  split
  · next heq => exact absurd (Prod.mk.inj heq).1 (h _)
  · rfl

/-- A scan reads a chain, and writes and counts what its lexemes leave and count for. -/
theorem Chain.reaches (o : ScanOptions) {ls : List Lexeme} {rest : List Char} :
    ∀ {s : State}, Chain s.reading ls rest → s.rest = ls.flatMap Lexeme.text ++ rest →
      ∃ t, Reaches o s t ∧ t.rest = rest ∧ t.reading = ls.foldl Reading.after s.reading ∧
        t.out = (ls.flatMap Lexeme.leaves).reverse ++ s.out ∧ t.stats = s.stats + countsOf ls := by
  induction ls with
  | nil => exact fun {s} _ hrest => ⟨s, .refl s, hrest, rfl, rfl, rfl⟩
  | cons l ls ih =>
    rintro s (_ | ⟨hfits, hopen, hchain⟩) hrest
    rw [List.flatMap_cons, List.append_assoc] at hrest
    obtain ⟨c, cs, hcs, hnext⟩ := step_of_fits hfits hrest
    have hstep : step o s c cs = absorb s l (ls.flatMap Lexeme.text ++ rest) := by
      rw [step, next_eq_joinBraces, hnext, joinBraces_of_ne o s hopen]
    rw [← reading_absorb s l (ls.flatMap Lexeme.text ++ rest)] at hchain
    obtain ⟨t, hreaches, htrest, hreading, hout, hstats⟩ := ih hchain (absorb_rest ..)
    refine ⟨t, .step hcs (hstep ▸ hreaches), htrest, ?_, ?_, ?_⟩
    · rw [hreading, reading_absorb, List.foldl_cons]
    · rw [hout, out_absorb s hfits, List.flatMap_cons, List.reverse_append, List.append_assoc]
    · rw [hstats, stats_absorb, Stats.add_assoc]
      rfl

/-! ### What stands for a lexeme -/

/-- Lexemes that are read before `rest`, and the ones that stand for them in the text with
carriage returns: they are read in the same way, and leave the same but for carriage returns. -/
structure Matched (r : Reading) (ls ls' : List Lexeme) (rest : List Char) : Prop where
  reads : Chain r ls rest
  reads' : Chain r ls' (crlf rest)
  text : ls'.flatMap Lexeme.text = crlf (ls.flatMap Lexeme.text)
  after : ls'.foldl Reading.after r = ls.foldl Reading.after r
  leaves : Returned (ls.flatMap Lexeme.leaves) (ls'.flatMap Lexeme.leaves)
  counts : countsOf ls' = countsOf ls

section Matching

variable {r : Reading} {l l' : Lexeme} {ls' : List Lexeme} {rest : List Char}

theorem Matched.single (hfits : Fits r l rest) (hfits' : Fits r l' (crlf rest))
    (hopen : ∀ body, l ≠ .blockComment body true) (hopen' : ∀ body, l' ≠ .blockComment body true)
    (htext : l'.text = crlf l.text) (hafter : r.after l' = r.after l)
    (hleaves : Returned l.leaves l'.leaves) (hcounts : l'.counts = l.counts) :
    Matched r [l] [l'] rest where
  reads := .single hfits hopen
  reads' := .single hfits' hopen'
  text := by simpa using htext
  after := by simpa using hafter
  leaves := by simpa using hleaves
  counts := by simp [countsOf, hcounts]

/-- A lexeme without a line feed stands for itself, if it still fits. -/
theorem Matched.same (hfits : Fits r l rest) (hfits' : Fits r l (crlf rest))
    (hopen : ∀ body, l ≠ .blockComment body true) (hfeed : '\n' ∉ l.text)
    (hleaves : l.leaves = l.text) (hreturn : '\r' ∉ l.text) : Matched r [l] [l] rest := by
  refine .single hfits hfits' hopen hopen (crlf_of_notMem hfeed).symm rfl ?_ rfl
  rw [hleaves]
  exact .refl hreturn

theorem Reading.countBrace_of_ne {c : Char} (hopen : c ≠ '{') (hclose : c ≠ '}')
    (layers : List Layer) : countBrace c layers = layers := by
  unfold countBrace
  split
  · rw [if_neg hopen, if_neg hclose]
  · rfl

/-- A blank leaves a reading as it is. -/
theorem Reading.after_blank (r : Reading) {c : Char} (h : isBlank c = true) :
    r.after (.code c) = r := by
  rw [after, countBrace_of_ne (ne_of_isBlank h (by decide)) (ne_of_isBlank h (by decide))]
  simp [Tracker.update, h, isWord_of_isBlank h]

theorem fits_ending (hplace : r.place ≠ .template) {c : Char} (h : c = '\r' ∨ c = '\n')
    (rest : List Char) : Fits r (.code c) rest := by
  rcases h with rfl | rfl
  · exact .code hplace (by decide) (by decide) (fun h => absurd h (by decide))
  · exact .code hplace (by decide) (by decide) (fun h => absurd h (by decide))

/-- A line feed of code becomes two characters of code. -/
theorem Matched.feed (hplace : r.place ≠ .template) (rest : List Char) :
    Matched r [.code '\n'] [.code '\r', .code '\n'] rest := by
  have hreturn := r.after_blank (by decide : isBlank '\r' = true)
  refine ⟨.single (fits_ending hplace (.inr rfl) _) (by simp), ?_, rfl, ?_, .feed .nil, rfl⟩
  · refine .cons (fits_ending hplace (.inl rfl) _) (by simp) (.single ?_ (by simp))
    rw [hreturn]
    exact fits_ending hplace (.inr rfl) _
  · simp [hreturn]

theorem fits_regex_feed {body : List Char} {inClass : Bool} (hplace : r.place ≠ .template)
    (hstart : r.tracker.canStartRegex = true) (hopens : opensRegex (body ++ '\n' :: rest) = true)
    (hbody : RegexBody false body inClass) : Fits r (.regex body false) ('\n' :: rest) := by
  have h := Fits.regex hplace hstart (by simpa using hopens) hbody (.feed inClass rest)
  rwa [List.append_nil] at h

/-- A slash at the end of a line may be taken for the start of a regular expression that is given
up at the line feed. -/
theorem Matched.slash_feed (hplace : r.place ≠ .template) (hdivides : r.Divides ('\n' :: rest))
    (hstart : r.tracker.canStartRegex = true) :
    Matched r [.code '/', .code '\n'] [.regex ['\r'] false, .code '\n'] rest := by
  have hslash : r.after (.code '/') = r.after (.regex ['\r'] false) := by
    rw [Reading.after, Reading.countBrace_of_ne (by decide) (by decide)]
    rfl
  have hplace' : (r.after (.regex ['\r'] false)).place ≠ .template := hplace
  refine ⟨?_, ?_, rfl, by simp [hslash], ?_, rfl⟩
  · refine .cons (.code hplace (by decide) (by decide) fun _ => hdivides) (by simp) ?_
    rw [hslash]
    exact .single (fits_ending hplace' (.inr rfl) _) (by simp)
  · refine .cons ?_ (by simp) (.single (fits_ending hplace' (.inr rfl) _) (by simp))
    exact fits_regex_feed hplace hstart rfl (RegexBody.concat_return (.nil false))
  · exact .keep (by decide) (.feed .nil)

/-- A regular expression that is given up at a line feed takes the carriage return along. -/
theorem Matched.regex_feed {body : List Char} {inClass : Bool} (hplace : r.place ≠ .template)
    (hstart : r.tracker.canStartRegex = true) (hopens : opensRegex (body ++ '\n' :: rest) = true)
    (hbody : RegexBody false body inClass) (hfeed : '\n' ∉ body) (hreturn : '\r' ∉ body) :
    Matched r [.regex body false, .code '\n'] [.regex (body ++ ['\r']) false, .code '\n']
      rest := by
  have hplace' : (r.after (.regex body false)).place ≠ .template := hplace
  have hopens' : opensRegex (body ++ ['\r'] ++ '\n' :: crlf rest) = true := by
    cases body with
    | nil => simp [opensRegex] at hopens
    | cons c body => exact hopens
  have hfits := fits_regex_feed hplace hstart hopens hbody
  have hfits' := fits_regex_feed hplace hstart hopens' hbody.concat_return
  refine ⟨.cons hfits (by simp) (.single (fits_ending hplace' (.inr rfl) _) (by simp)),
    .cons hfits' (by simp) (.single (fits_ending hplace' (.inr rfl) _) (by simp)), ?_, rfl, ?_, rfl⟩
  · simp [Lexeme.text, crlf_cons, crlf_of_notMem hfeed]
  · have hleaves : Returned ('/' :: body ++ ['\n']) ('/' :: body ++ ['\r', '\n']) :=
      (Returned.refl (by simp [hreturn])).append (.feed .nil)
    simpa [Lexeme.leaves, Lexeme.text] using hleaves

/-- A line feed in a template becomes two characters of the template, also after a backslash. -/
theorem Matched.template_feed (hplace : r.place = .template) (front : List Char)
    (hfront : front = [] ∨ front = ['\\']) (rest : List Char) :
    Matched r [.templateText (front ++ ['\n'])]
      [.templateText (front ++ ['\r']), .templateText ['\n']] rest := by
  have hfits : ∀ {c : Char} (rest : List Char), c = '\r' ∨ c = '\n' →
      Fits r (.templateText (front ++ [c])) rest := by
    intro c rest hc
    rcases hfront with rfl | rfl
    · rcases hc with rfl | rfl
      · exact .templateText hplace (by decide) (by decide) (fun h => absurd h (by decide))
      · exact .templateText hplace (by decide) (by decide) (fun h => absurd h (by decide))
    · exact .escape c rest hplace
  have hlast : Fits r (.templateText ['\n']) (crlf rest) :=
    .templateText hplace (by decide) (by decide) (fun h => absurd h (by decide))
  refine ⟨.single (hfits rest (.inr rfl)) (by simp),
    .cons (hfits _ (.inl rfl)) (by simp) (.single hlast (by simp)), ?_, rfl, ?_, rfl⟩
  · rcases hfront with rfl | rfl <;> rfl
  · rcases hfront with rfl | rfl
    · exact .feed .nil
    · exact .keep (by decide) (.feed .nil)

/-- What follows a lexeme starts with the same character in both texts, or with a line feed in the
one and a carriage return in the other. -/
theorem head?_crlf_ne {c : Char} (hc : c ≠ '\r') (h : rest.head? ≠ some c) :
    (crlf rest).head? ≠ some c := by
  rw [head?_crlf]
  split
  · exact fun heq => hc (Option.some.inj heq).symm
  · exact h

theorem Reading.Divides.crlf (h : r.Divides rest)
    (hregex : ¬ (rest.head? = some '\n' ∧ r.tracker.canStartRegex = true)) :
    r.Divides (crlf rest) := by
  obtain ⟨hline, hblock, hopens⟩ := h
  refine ⟨head?_crlf_ne (by decide) hline, head?_crlf_ne (by decide) hblock, ?_⟩
  by_cases hfeed : rest.head? = some '\n'
  · have hstart : r.tracker.canStartRegex = false := by simpa [hfeed] using hregex
    rw [hstart, Bool.false_and]
  · have hhead : (Uncomment.crlf rest).head? = rest.head? := by rw [head?_crlf, if_neg hfeed]
    rwa [opensRegex_of_head hhead]

/-- Whether a text and the one with carriage returns are read in step for a while. -/
def Reading.InStep (r : Reading) (cs : List Char) : Prop :=
  ∃ ls ls' rest, cs = ls.flatMap Lexeme.text ++ rest ∧ ls ≠ [] ∧ Matched r ls ls' rest

theorem Matched.inStep (h : Matched r [l] ls' rest) : r.InStep (l.text ++ rest) :=
  ⟨[l], ls', rest, by simp, by simp, h⟩

theorem inStep_code {c : Char} (hplace : r.place ≠ .template) (hquote : isQuote c = false)
    (htick : c ≠ backtick) (hdivides : c = '/' → r.Divides rest) (hreturn : c ≠ '\r') :
    r.InStep ((Lexeme.code c).text ++ rest) := by
  by_cases hfeed : c = '\n'
  · subst hfeed
    exact (Matched.feed hplace rest).inStep
  by_cases hregex : c = '/' ∧ rest.head? = some '\n' ∧ r.tracker.canStartRegex = true
  · obtain ⟨rfl, hhead, hstart⟩ := hregex
    obtain ⟨rest, rfl⟩ := List.head?_eq_some_iff.mp hhead
    exact ⟨_, _, rest, rfl, by simp, .slash_feed hplace (hdivides rfl) hstart⟩
  · refine (Matched.same (.code hplace hquote htick hdivides) ?_ (by simp) ?_ rfl ?_).inStep
    · refine .code hplace hquote htick fun hc => (hdivides hc).crlf fun hboth => ?_
      exact hregex ⟨hc, hboth⟩
    · simpa [Lexeme.text] using Ne.symm hfeed
    · simpa [Lexeme.text] using Ne.symm hreturn

theorem inStep_quoted {quote : Char} {body ending : List Char} {closed : Bool}
    (hplace : r.place ≠ .template) (hquote : isQuote quote = true) (hbody : QuotedBody quote body)
    (hend : QuotedEnd quote closed ending rest) (hfeed : '\n' ∉ body)
    (hreturn : '\r' ∉ body ++ ending) :
    r.InStep ((Lexeme.quoted quote (body ++ ending) closed).text ++ rest) := by
  have hne : ∀ c, isQuote c = false → c ≠ quote := by
    rintro c hc rfl
    simp [hc] at hquote
  have hfits := Fits.quoted hplace hquote hbody hend
  -- at a quote and at the end of the text, nothing changes
  have hsame : '\n' ∉ ending → QuotedEnd quote closed ending (crlf rest) →
      r.InStep ((Lexeme.quoted quote (body ++ ending) closed).text ++ rest) := by
    intro hfeed' hend'
    refine (Matched.same hfits (.quoted hplace hquote hbody hend') (by simp) ?_ rfl ?_).inStep
    · simp only [Lexeme.text, List.mem_cons, List.mem_append, not_or]
      exact ⟨hne _ (by decide), hfeed, hfeed'⟩
    · simp only [Lexeme.text, List.mem_cons, not_or]
      exact ⟨hne _ (by decide), hreturn⟩
  cases hend with
  | quote rest =>
    refine hsame ?_ (.quote _)
    simpa using hne _ (by decide)
  | stop => exact hsame (by simp) .stop
  | backslash => exact hsame (by simp) .backslash
  | feed rest =>
    have hbody' := hbody.concat (hne '\r' (by decide)) (by decide) (by decide)
    refine (Matched.single hfits (.quoted hplace hquote hbody' (.feed _)) (by simp) (by simp) ?_ rfl
      ?_ rfl).inStep
    · simp [Lexeme.text, crlf_cons (hne _ (by decide)).symm, crlf_of_notMem hfeed]
    · have hfront : '\r' ∉ quote :: body := by
        simp only [List.mem_append, not_or, List.mem_cons] at hreturn ⊢
        exact ⟨hne _ (by decide), hreturn.1⟩
      have hleaves : Returned (quote :: body ++ ['\n']) (quote :: body ++ ['\r', '\n']) :=
        (Returned.refl hfront).append (.feed .nil)
      simpa [Lexeme.leaves, Lexeme.text] using hleaves

theorem inStep_regex {body ending : List Char} {closed inClass : Bool}
    (hplace : r.place ≠ .template) (hstart : r.tracker.canStartRegex = true)
    (hopens : opensRegex (body ++ (ending ++ rest)) = true) (hbody : RegexBody false body inClass)
    (hend : RegexEnd inClass closed ending rest) (hfeed : '\n' ∉ body)
    (hreturn : '\r' ∉ body ++ ending) :
    r.InStep ((Lexeme.regex (body ++ ending) closed).text ++ rest) := by
  have hfits := Fits.regex hplace hstart hopens hbody hend
  have hsame : '\n' ∉ ending → opensRegex (body ++ (ending ++ crlf rest)) = true →
      RegexEnd inClass closed ending (crlf rest) →
      r.InStep ((Lexeme.regex (body ++ ending) closed).text ++ rest) := by
    intro hfeed' hopens' hend'
    refine (Matched.same hfits (.regex hplace hstart hopens' hbody hend') (by simp) ?_ rfl
      ?_).inStep
    · simp only [Lexeme.text, List.mem_cons, List.mem_append, not_or]
      exact ⟨by decide, hfeed, hfeed'⟩
    · simp only [Lexeme.text, List.mem_cons, not_or]
      exact ⟨by decide, hreturn⟩
  cases hend with
  | @slash flags rest hflags hrest =>
    refine hsame ?_ ?_ (.slash hflags ?_)
    · intro hmem
      rcases List.mem_cons.mp hmem with heq | hmem
      · cases heq
      · exact absurd (hflags _ hmem) (by decide)
    · rwa [← opensRegex_of_head (head?_append_congr _ _)]
      rfl
    · intro c hc
      rw [head?_crlf] at hc
      split at hc
      · cases hc
        decide
      · exact hrest c hc
  | stop => exact hsame (by simp) hopens (.stop _)
  | backslash => exact hsame (by simp) hopens (.backslash _)
  | feed _ rest =>
    rw [List.append_nil] at hreturn
    refine ⟨_, _, rest, ?_, by simp, .regex_feed hplace hstart hopens hbody hfeed hreturn⟩
    simp [Lexeme.text]

theorem inStep_directive {line : List Char} (hplace : r.place = .topLevel)
    (hdir : isDirective line = true) (hline : FullLine line rest) (hreturn : '\r' ∉ line) :
    r.InStep ((Lexeme.directive line).text ++ rest) := by
  have hfits := Fits.directive hplace hdir hline
  cases hline with
  | feed line rest hfeed =>
    have hdir' : isDirective (line ++ ['\r'] ++ ['\n']) = true := by
      rwa [List.append_assoc, List.singleton_append, isDirective_crlf_line hfeed]
    refine (Matched.single hfits (.directive hplace hdir' (.feed _ _ (by simpa using hfeed)))
      (by simp) (by simp) ?_ rfl ?_ rfl).inStep
    · simp [Lexeme.text, crlf_of_notMem hfeed]
    · have hleaves : Returned (line ++ ['\n']) (line ++ ['\r', '\n']) :=
        (Returned.refl fun h => hreturn (List.mem_append_left _ h)).append (.feed .nil)
      simpa [Lexeme.leaves, Lexeme.text] using hleaves
  | stop hfeed => exact (Matched.same hfits hfits (by simp) hfeed rfl hreturn).inStep

theorem inStep_lineComment {body ending : List Char} (hplace : r.place ≠ .template)
    (hbody : '\n' ∉ body) (hend : LineEnd body ending rest)
    (hdir : r.place = .topLevel → isDirective (Lexeme.lineComment body ending).text = false)
    (hreturn : '\r' ∉ ending) : r.InStep ((Lexeme.lineComment body ending).text ++ rest) := by
  have hfits := Fits.lineComment hplace hbody hend hdir
  have hslashes : '\n' ∉ '/' :: '/' :: body := by simpa using hbody
  cases hend with
  | crlf => simp at hreturn
  | feed rest _ =>
    refine (Matched.single hfits (.lineComment hplace hbody (.crlf body _) fun htop => ?_)
      (by simp) (by simp) ?_ rfl (.feed .nil) rfl).inStep
    · rw [Lexeme.text, isDirective_crlf_line hslashes]
      exact hdir htop
    · rw [Lexeme.text, Lexeme.text, crlf_append, crlf_of_notMem hslashes]
      rfl
  | stop =>
    refine (Matched.single hfits hfits (by simp) (by simp) ?_ rfl .nil rfl).inStep
    rw [Lexeme.text, List.append_nil, crlf_of_notMem hslashes]

theorem inStep_blockComment {body : List Char} (hplace : r.place ≠ .template)
    (hbody : BlockBody false body rest) :
    r.InStep ((Lexeme.blockComment body false).text ++ rest) := by
  refine (Matched.single (.blockComment hplace hbody) (.blockComment hplace hbody.crlf) (by simp)
    (by simp) ?_ rfl ?_ rfl).inStep
  · simp [Lexeme.text, crlf_cons]
  · simp only [Lexeme.leaves, count_crlf]
    exact .refl (by simp [List.mem_replicate])

/-- **A lexeme that is no closed comment is read in step with the text that has carriage
returns**, unless it is a literal in which a backslash takes a line feed along. -/
theorem Fits.inStep (h : Fits r l rest) (hopen : ∀ body, l ≠ .blockComment body true)
    (hunbroken : l.unbroken = true) (hreturn : '\r' ∉ l.text) : r.InStep (l.text ++ rest) := by
  cases h with
  | code hplace hquote htick hdivides =>
    exact inStep_code hplace hquote htick hdivides (by simpa [Lexeme.text, eq_comm] using hreturn)
  | quoted hplace hquote hbody hend =>
    rw [Lexeme.unbroken, Bool.not_eq_true'] at hunbroken
    exact inStep_quoted hplace hquote hbody hend (hbody.notMem_feed hunbroken)
      fun hmem => hreturn (List.mem_cons_of_mem _ hmem)
  | regex hplace hstart hopens hbody hend =>
    rw [Lexeme.unbroken, Bool.not_eq_true'] at hunbroken
    exact inStep_regex hplace hstart hopens hbody hend (hbody.notMem_feed hunbroken)
      fun hmem => hreturn (List.mem_cons_of_mem _ hmem)
  | directive hplace hdir hline => exact inStep_directive hplace hdir hline hreturn
  | lineComment hplace hbody hend hdir =>
    exact inStep_lineComment hplace hbody hend hdir fun hmem =>
      hreturn (by simp [Lexeme.text, hmem])
  | @blockComment body _ closed hplace hbody =>
    cases closed with
    | true => exact absurd rfl (hopen body)
    | false => exact inStep_blockComment hplace hbody
  | escape c _ hplace =>
    by_cases hc : c = '\n'
    · subst hc
      exact (Matched.template_feed hplace ['\\'] (.inr rfl) rest).inStep
    · refine (Matched.same (.escape c rest hplace) (.escape c _ hplace) (by simp) ?_ rfl
        hreturn).inStep
      simpa [Lexeme.text] using Ne.symm hc
  | @templateText c _ hplace hesc htick hdollar =>
    by_cases hc : c = '\n'
    · subst hc
      exact (Matched.template_feed hplace [] (.inl rfl) rest).inStep
    · refine (Matched.same (.templateText hplace hesc htick hdollar)
        (.templateText hplace hesc htick fun hc => head?_crlf_ne (by decide) (hdollar hc))
        (by simp) ?_ rfl hreturn).inStep
      simpa [Lexeme.text] using Ne.symm hc
  | backslash hplace =>
    exact (Matched.same (.backslash hplace) (.backslash hplace) (by simp) (by decide) rfl
      hreturn).inStep
  | openTemplate _ hplace =>
    exact (Matched.same (.openTemplate rest hplace) (.openTemplate _ hplace) (by simp) (by decide)
      rfl hreturn).inStep
  | closeTemplate _ hplace =>
    exact (Matched.same (.closeTemplate rest hplace) (.closeTemplate _ hplace) (by simp) (by decide)
      rfl hreturn).inStep
  | openInterpolation _ hplace =>
    exact (Matched.same (.openInterpolation rest hplace) (.openInterpolation _ hplace) (by simp)
      (by decide) rfl hreturn).inStep

end Matching

/-! ### Two scans in step -/

/-- Two scans that have come to the same place, one of them in the text with carriage returns. -/
structure Abreast (s s' : State) : Prop where
  rest : s'.rest = crlf s.rest
  noReturn : '\r' ∉ s.rest
  reading : s'.reading = s.reading
  out : ReturnedBack s.out s'.out
  stats : s'.stats = s.stats

theorem abreast_start {cs : List Char} (h : '\r' ∉ cs) :
    Abreast { rest := cs } { rest := crlf cs } := ⟨rfl, h, rfl, .nil, rfl⟩

/-- Matching chains keep two scans in step. -/
theorem Abreast.chain (o : ScanOptions) {s s' : State} (h : Abreast s s') {ls ls' : List Lexeme}
    {rest : List Char} (hrest : s.rest = ls.flatMap Lexeme.text ++ rest)
    (hmatched : Matched s.reading ls ls' rest) :
    ∃ t t', Reaches o s t ∧ Reaches o s' t' ∧ Abreast t t' ∧ t.rest = rest := by
  have hrest' : s'.rest = ls'.flatMap Lexeme.text ++ crlf rest := by
    rw [h.rest, hrest, crlf_append, hmatched.text]
  obtain ⟨t, hreaches, htrest, hreading, hout, hstats⟩ := hmatched.reads.reaches o hrest
  have hreads' := hmatched.reads'
  rw [← h.reading] at hreads'
  obtain ⟨t', hreaches', htrest', hreading', hout', hstats'⟩ := hreads'.reaches o hrest'
  refine ⟨t, t', hreaches, hreaches', ⟨?_, ?_, ?_, ?_, ?_⟩, htrest⟩
  · rw [htrest, htrest']
  · intro hmem
    refine h.noReturn ?_
    rw [hrest, ← htrest]
    exact List.mem_append_right _ hmem
  · rw [hreading', hreading, h.reading, hmatched.after]
  · rw [hout, hout']
    exact ReturnedBack.write hmatched.leaves h.out
  · rw [hstats', hstats, h.stats, hmatched.counts]

theorem facesBrace_crlf (cs : List Char) : facesBrace (crlf cs) = facesBrace cs := by
  induction cs with
  | nil => rfl
  | cons c cs ih =>
    by_cases hc : c = '\n'
    · subst hc
      rfl
    · rw [crlf_cons hc]
      by_cases hblank : isSpaceOrTab c = true
      · simpa [facesBrace, hblank] using ih
      · simp [facesBrace, hblank]

/-- Removing a comment keeps two scans in step, with the braces around it or without. -/
theorem Abreast.absorb {s s' : State} (h : Abreast s s') {l l' : Lexeme} {rest : List Char}
    (hrest : rest <:+ s.rest) (hafter : s.reading.after l' = s.reading.after l)
    (hcounts : l'.counts = l.counts)
    (hout : ReturnedBack (absorb s l rest).out (absorb s' l' (crlf rest)).out) :
    Abreast (absorb s l rest) (absorb s' l' (crlf rest)) where
  rest := by rw [absorb_rest, absorb_rest]
  noReturn := by
    rw [absorb_rest]
    exact fun hmem => h.noReturn (hrest.mem hmem)
  reading := by rw [reading_absorb, reading_absorb, h.reading, hafter]
  out := hout
  stats := by rw [stats_absorb, stats_absorb, h.stats, hcounts]

/-- A closed comment takes the braces around it with it in both texts or in neither. -/
theorem Abreast.joinBraces (o : ScanOptions) {s s' : State} (h : Abreast s s')
    {body rest : List Char} (hrest : rest <:+ s.rest) :
    let read := s.joinBraces o (.blockComment body true, rest)
    let read' := s'.joinBraces o (.blockComment (crlf body) true, crlf rest)
    Abreast (Scan.absorb s read.1 read.2) (Scan.absorb s' read'.1 read'.2) := by
  have hframes : s'.frames.isEmpty = s.frames.isEmpty := by
    have hlayers : s'.frames.map Frame.layer = s.frames.map Frame.layer :=
      congrArg Reading.layers h.reading
    rw [← List.isEmpty_map, hlayers, List.isEmpty_map]
  have hfeeds : Returned (feeds body).reverse (feeds (crlf body)).reverse := by
    rw [feeds_eq, feeds_eq, count_crlf]
    exact .refl (by simp [List.mem_replicate])
  have hwrite : ∀ {out out'}, ReturnedBack out out' →
      ReturnedBack (feeds body ++ out) (feeds (crlf body) ++ out') := by
    intro out out' hout
    have hback := ReturnedBack.write hfeeds hout
    rwa [List.reverse_reverse, List.reverse_reverse] at hback
  simp only [State.joinBraces, hframes, ← followsBrace_returned h.out, facesBrace_crlf]
  split_ifs with hgo
  · simp only [Bool.and_eq_true] at hgo
    obtain ⟨blanks, rest, hblanks, rfl⟩ : ∃ blanks after,
        (∀ c ∈ blanks, isSpaceOrTab c = true) ∧ rest = blanks ++ '}' :: after := by
      obtain ⟨after, hafter⟩ := facesBrace_split hgo.2
      exact ⟨_, after, fun c hc => List.mem_takeWhile_imp hc, hafter⟩
    have hfeed : '\n' ∉ blanks := fun hmem => absurd (hblanks _ hmem) (by decide)
    have hcrlf : crlf (blanks ++ '}' :: rest) = blanks ++ '}' :: crlf rest := by
      rw [crlf_append, crlf_of_notMem hfeed, crlf_cons (by decide)]
    rw [hcrlf, cut_brace hblanks, cut_brace hblanks]
    refine h.absorb ?_ rfl rfl (hwrite (dropBrace_returned h.out hgo.1.2))
    exact ((List.suffix_cons ..).trans (List.suffix_append ..)).trans hrest
  · exact h.absorb hrest rfl rfl (hwrite h.out)

theorem Abreast.blockComment (o : ScanOptions) {s s' : State} (h : Abreast s s')
    {body rest : List Char} (hfits : Fits s.reading (.blockComment body true) rest)
    (hrest : s.rest = (Lexeme.blockComment body true).text ++ rest) :
    ∃ t t', Reaches o s t ∧ Reaches o s' t' ∧ Abreast t t' ∧ t.rest.length < s.rest.length := by
  have hfits' : Fits s'.reading (.blockComment (crlf body) true) (crlf rest) := by
    rw [h.reading]
    cases hfits with
    | blockComment hplace hbody => exact .blockComment hplace hbody.crlf
  have hrest' : s'.rest = (Lexeme.blockComment (crlf body) true).text ++ crlf rest := by
    rw [h.rest, hrest, crlf_append]
    simp [Lexeme.text, crlf_cons]
  obtain ⟨c, cs, hcs, hnext⟩ := step_of_fits hfits hrest
  obtain ⟨c', cs', hcs', hnext'⟩ := step_of_fits hfits' hrest'
  refine ⟨_, _, .step hcs (.refl _), .step hcs' (.refl _), ?_, ?_⟩
  · rw [step, step, next_eq_joinBraces o s, next_eq_joinBraces o s', hnext, hnext']
    exact h.joinBraces o (hrest ▸ List.suffix_append ..)
  · rw [hcs]
    exact step_rest_length o s c cs

/-- **Two scans that are in step come to places where they are in step again.** -/
theorem Abreast.step (o : ScanOptions) {s s' : State} (h : Abreast s s') {c : Char}
    {cs : List Char} (hcs : s.rest = c :: cs) (hunbroken : (next o s c cs).1.unbroken = true) :
    ∃ t t', Reaches o s t ∧ Reaches o s' t' ∧ Abreast t t' ∧ t.rest.length < s.rest.length := by
  have hfits := fits_next s c cs
  have htext := next_append keepBraces s c cs
  rw [next_eq_joinBraces] at hunbroken
  generalize next keepBraces s c cs = read at hfits htext hunbroken
  obtain ⟨l, rest⟩ := read
  rw [← hcs] at htext
  by_cases hopen : ∀ body, l ≠ .blockComment body true
  · rw [joinBraces_of_ne o s hopen] at hunbroken
    have hreturn : '\r' ∉ l.text := fun hmem =>
      h.noReturn (htext ▸ List.mem_append_left _ hmem)
    obtain ⟨ls, ls', rest₁, hls, hne, hmatched⟩ := hfits.inStep hopen hunbroken hreturn
    have hrest : s.rest = ls.flatMap Lexeme.text ++ rest₁ := htext.symm.trans hls
    obtain ⟨t, t', hreaches, hreaches', habreast, htrest⟩ := h.chain o hrest hmatched
    refine ⟨t, t', hreaches, hreaches', habreast, ?_⟩
    have hpos := List.length_pos_iff.mpr (hmatched.reads.text_ne hne)
    rw [htrest, hrest, List.length_append]
    omega
  · push Not at hopen
    obtain ⟨body, rfl⟩ := hopen
    exact h.blockComment o hfits htext.symm

theorem Reaches.pieces_subset {o : ScanOptions} {s t : State} (h : Reaches o s t) :
    pieces o t ⊆ pieces o s := by
  induction h with
  | refl s => exact List.Subset.refl _
  | step hrest _ ih =>
    rw [pieces_cons o hrest]
    exact List.subset_cons_of_subset _ ih

/-- Two scans that are in step end in step. -/
theorem Abreast.run (o : ScanOptions) {s s' : State} (h : Abreast s s')
    (hunbroken : ∀ p ∈ pieces o s, p.lexeme.unbroken = true) : Abreast (run o s) (run o s') := by
  match hrest : s.rest with
  | [] =>
    rw [run_nil o hrest, run_nil o (h.rest.trans (by rw [hrest, crlf_nil]))]
    exact h
  | c :: cs =>
    have hfirst : (next o s c cs).1.unbroken = true := by
      refine hunbroken ⟨s.reading.place, (next o s c cs).1, false⟩ ?_
      rw [pieces_cons o hrest]
      exact List.mem_cons_self
    obtain ⟨t, t', hreaches, hreaches', habreast, hshorter⟩ := h.step o hrest hfirst
    rw [hreaches.run_eq, hreaches'.run_eq]
    exact habreast.run o fun p hp => hunbroken p (hreaches.pieces_subset hp)
termination_by s.rest.length

end Scan

/-- **A text is stripped alike with both conventions for line ends:** what is left is the same but
for the carriage returns, and the same is counted, if no backslash in a string or a regular
expression takes a line feed along. -/
theorem strip_crlf (o : ScanOptions) (source : String) (hreturn : '\r' ∉ source.toList)
    (hunbroken : ∀ p ∈ Scan.pieces o { rest := source.toList }, p.lexeme.unbroken = true) :
    unix (strip o (String.ofList (crlf source.toList))).text.toList = (strip o source).text.toList ∧
      (strip o (String.ofList (crlf source.toList))).stats = (strip o source).stats := by
  have h := (Scan.abreast_start hreturn).run o hunbroken
  simp only [strip, String.toList_ofList]
  exact ⟨h.out.reverse.unix_eq, h.stats⟩

/-- A comment alone in its braces, a template with a backslash at the end of a line, and a string,
a slash and a regular expression that end with their line. -/
theorem strip_crlf_line_by_line :
    unix (strip {} (String.ofList
        (crlf "\x7b /* a\n */ \x7d\n`b\\\nc` // d\n'e\n/\n/[f\n".toList))).text.toList =
      (strip {} "\x7b /* a\n */ \x7d\n`b\\\nc` // d\n'e\n/\n/[f\n").text.toList ∧
    (strip {} (String.ofList
        (crlf "\x7b /* a\n */ \x7d\n`b\\\nc` // d\n'e\n/\n/[f\n".toList))).stats =
      (strip {} "\x7b /* a\n */ \x7d\n`b\\\nc` // d\n'e\n/\n/[f\n").stats :=
  strip_crlf {} _ (by decide +kernel) (by decide +kernel)

/-- In a string that goes on after a backslash at the end of a line, slashes are kept; with carriage
returns the string ends at the line feed, and the slashes are removed as a comment. -/
theorem strip_crlf_escaped_feed :
    '\r' ∉ "'\\\n//'".toList ∧ (strip {} "'\\\n//'").text = "'\\\n//'" ∧
      (strip {} (String.ofList (crlf "'\\\n//'".toList))).text = "'\\\r\n" ∧
      unix (strip {} (String.ofList (crlf "'\\\n//'".toList))).text.toList ≠
        (strip {} "'\\\n//'").text.toList ∧
      (strip {} (String.ofList (crlf "'\\\n//'".toList))).stats ≠ (strip {} "'\\\n//'").stats := by
  decide +kernel

end Uncomment
