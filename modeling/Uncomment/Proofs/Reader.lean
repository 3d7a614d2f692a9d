/-
# Reading a text without comments, character by character

A scan takes lexemes, which may be long. A `Reader` takes one character at a time and remembers
what the scan would know: the open templates and interpolations, the tracker, and how far it has
come in a lexeme. It refuses comments. It also refuses a line feed in a string or regular
expression after a backslash, a space or tab and nothing but spaces and tabs, where trimming the
line would let the backslash take the line feed along.

A reader that is where a scan is reads the next lexeme to where the scan comes, unless it is a
comment (`Fits.reads`). The reader may know less than the scan, for a comment changes the tracker
and is not there for the reader; then a slash that could open a regular expression must be the same
for both. From a text that a reader reads to its end, a scan removes nothing (`strip_of_clear`).

Key definitions: `Scan.Reader`, `Scan.Reader.next`, `Scan.Reader.Acts`, `Clear`.
Key theorems: `Scan.Fits.reads`, `strip_of_clear`.
-/
import Uncomment.Proofs.LineEndings

namespace Uncomment

open Text

namespace Scan

/-! ### Readers -/

/-- What the last backslash of a literal has to do with the next character. -/
inductive Pending where
  | none
  /-- The next character is taken along. -/
  | escape
  /-- A space or tab was taken along, and only spaces and tabs have followed. -/
  | hanging
deriving DecidableEq, Repr

/-- The same after one more character. -/
def Pending.step (p : Pending) (c : Char) : Pending :=
  match p with
  | .escape => if isSpaceOrTab c then .hanging else .none
  | .hanging => if isSpaceOrTab c then .hanging else if c = '\\' then .escape else .none
  | .none => if c = '\\' then .escape else .none

/-- How far a reader has come in a lexeme. -/
inductive Mode where
  /-- Between lexemes. -/
  | plain
  /-- After a slash, before it is known what it opens. -/
  | slash
  /-- In a line that starts with two slashes. -/
  | line (text : List Char)
  | quoted (quote : Char) (pending : Pending)
  | regex (inClass : Bool) (pending : Pending)
  /-- After the slash that closes a regular expression. -/
  | flags
  /-- In a template, after a backslash. -/
  | escape
  /-- In a template, after a dollar sign. -/
  | dollar
deriving DecidableEq, Repr

/-- A reader of texts without comments. -/
structure Reader where
  reading : Reading := {}
  mode : Mode := .plain
deriving DecidableEq, Repr

namespace Reader

/-- The reader after a character of code. -/
def ofCode (r : Reading) (c : Char) : Reader :=
  if isQuote c then ⟨r, .quoted c .none⟩
  else if c = backtick then ⟨r.after .openTemplate, .plain⟩
  else if c = '/' then ⟨r, .slash⟩
  else ⟨r.after (.code c), .plain⟩

/-- The reader after a character of a template. -/
def ofTemplate (r : Reading) (c : Char) : Reader :=
  if c = '\\' then ⟨r, .escape⟩
  else if c = backtick then ⟨r.after .closeTemplate, .plain⟩
  else if c = '$' then ⟨r, .dollar⟩
  else ⟨r, .plain⟩

/-- The reader after a character of a string, if it is not refused. -/
def ofQuoted (r : Reading) (quote : Char) (p : Pending) (c : Char) : Option Reader :=
  if p = .hanging ∧ c = '\n' then none
  else if p ≠ .escape ∧ (c = quote ∨ c = '\n') then some ⟨⟨r.layers, .resetTo quote⟩, .plain⟩
  else some ⟨r, .quoted quote (p.step c)⟩

/-- Whether a place is in a character class after a character that is not taken along. -/
def inClassAfter (inClass : Bool) (c : Char) : Bool :=
  if c = '[' then true else if c = ']' then false else inClass

/-- The reader after a character of a regular expression, if it is not refused. -/
def ofRegex (r : Reading) (inClass : Bool) (p : Pending) (c : Char) : Option Reader :=
  if p = .hanging ∧ c = '\n' then none
  else if p = .escape then some ⟨r, .regex inClass (p.step c)⟩
  else if c = '\n' then some ⟨⟨r.layers, .resetTo '/'⟩, .plain⟩
  else if c = '/' ∧ inClass = false then some ⟨⟨r.layers, .resetTo '/'⟩, .flags⟩
  else some ⟨r, .regex (inClassAfter inClass c) (p.step c)⟩

/-- The reader after the character that follows a slash, if it is not refused. -/
def ofSlash (r : Reading) (c : Char) : Option Reader :=
  if c = '/' then if r.place = .topLevel then some ⟨r, .line ['/', '/']⟩ else none
  else if c = '*' then none
  else if r.tracker.canStartRegex && opensRegex [c] then ofRegex r false .none c
  else some (ofCode (r.after (.code '/')) c)

/-- The reader after one more character, if it is not refused. -/
def next (a : Reader) (c : Char) : Option Reader :=
  match a.mode with
  | .plain =>
    some (if a.reading.place = .template then ofTemplate a.reading c else ofCode a.reading c)
  | .slash => ofSlash a.reading c
  | .line text =>
    if c = '\n' then
      if isDirective text then some ⟨⟨a.reading.layers, .resetTo '\n'⟩, .plain⟩ else none
    else some ⟨a.reading, .line (text ++ [c])⟩
  | .quoted quote p => ofQuoted a.reading quote p c
  | .regex inClass p => ofRegex a.reading inClass p c
  | .flags => some (if isAlphabetic c then a else ofCode a.reading c)
  | .escape => some ⟨a.reading, .plain⟩
  | .dollar =>
    some (if c = '{' then ⟨a.reading.after .openInterpolation, .plain⟩
      else ofTemplate a.reading c)

/-- The reader after a text, if none of it is refused. -/
def readAll (a : Reader) (cs : List Char) : Option Reader := cs.foldlM next a

/-- Whether a text may end here: a line that starts with two slashes is a directive. -/
def ends (a : Reader) : Bool :=
  match a.mode with
  | .line text => isDirective text
  | _ => true

@[simp] theorem readAll_nil (a : Reader) : a.readAll [] = some a := rfl

@[simp] theorem readAll_cons (a : Reader) (c : Char) (cs : List Char) :
    a.readAll (c :: cs) = (a.next c).bind (·.readAll cs) := rfl

theorem readAll_append (a : Reader) (xs ys : List Char) :
    a.readAll (xs ++ ys) = (a.readAll xs).bind (·.readAll ys) := by
  simp [readAll, List.foldlM_append]

/-- A reader reads the front of what it reads. -/
theorem readAll_front {a b : Reader} {xs ys : List Char} (h : a.readAll (xs ++ ys) = some b) :
    ∃ m, a.readAll xs = some m ∧ m.readAll ys = some b := by
  rw [readAll_append] at h
  exact Option.bind_eq_some_iff.mp h

theorem next_plain {r : Reading} (h : r.place ≠ .template) (c : Char) :
    next ⟨r, .plain⟩ c = some (ofCode r c) := by
  simp [next, h]

theorem next_plain_slash {r : Reading} (h : r.place ≠ .template) :
    next ⟨r, .plain⟩ '/' = some ⟨r, .slash⟩ := by
  rw [next_plain h]
  rfl

/-- A blank is no news to a reader of code. -/
theorem ofCode_blank (r : Reading) {c : Char} (h : isBlank c = true) :
    ofCode r c = ⟨r, .plain⟩ := by
  have htick : c ≠ backtick := ne_of_isBlank h (by decide)
  have hslash : c ≠ '/' := ne_of_isBlank h (by decide)
  simp [ofCode, isQuote_of_isBlank h, htick, hslash, r.after_blank h]

theorem next_flags {r : Reading} {c : Char} (h : isAlphabetic c = false) :
    next ⟨r, .flags⟩ c = some (ofCode r c) := by
  simp [next, h]

theorem next_plain_template {r : Reading} (h : r.place = .template) (c : Char) :
    next ⟨r, .plain⟩ c = some (ofTemplate r c) := by
  simp [next, h]

end Reader

/-! ### Literals -/

namespace Pending

/-- Whether a line feed follows a space or tab that was taken along and only such characters. -/
def hangs : Pending → List Char → Bool
  | _, [] => false
  | p, c :: cs => p == .hanging && c == '\n' || hangs (p.step c) cs

theorem hangs_append (p : Pending) (xs ys : List Char) :
    hangs p (xs ++ ys) = (hangs p xs || hangs (xs.foldl step p) ys) := by
  induction xs generalizing p with
  | nil => rfl
  | cons c xs ih => simp [hangs, ih, Bool.or_assoc]

theorem hangs_flags {flags rest : List Char} (h : ∀ c ∈ flags, isAlphabetic c = true) :
    Pending.none.hangs (flags ++ rest.take 1) = false := by
  induction flags with
  | nil => cases rest <;> simp [hangs]
  | cons c flags ih =>
    simp only [List.mem_cons, forall_eq_or_imp] at h
    have hstep : Pending.none.step c = .none := by
      have hc : c ≠ '\\' := by
        rintro rfl
        exact absurd h.1 (by decide)
      simp [step, hc]
    simp [hangs, hstep, ih h.2]

theorem step_backslash {p : Pending} (h : p ≠ .escape) : p.step '\\' = .escape := by
  cases p with
  | escape => exact absurd rfl h
  | none => rfl
  | hanging => rfl

theorem step_ne_escape {p : Pending} {c : Char} (h : p = .escape ∨ c ≠ '\\') :
    p.step c ≠ .escape := by
  cases p with
  | escape =>
    unfold step
    split_ifs <;> simp
  | none =>
    have hc : c ≠ '\\' := by simpa using h
    simp [step, hc]
  | hanging =>
    have hc : c ≠ '\\' := by simpa using h
    unfold step
    rw [if_neg hc]
    split_ifs <;> simp

end Pending

namespace Reader

variable {r : Reading}

theorem ofQuoted_escape (quote c : Char) :
    ofQuoted r quote .escape c = some ⟨r, .quoted quote (Pending.escape.step c)⟩ := by
  simp [ofQuoted]

theorem ofQuoted_plain {quote c : Char} (p : Pending) (hc : c ≠ quote) (hfeed : c ≠ '\n') :
    ofQuoted r quote p c = some ⟨r, .quoted quote (p.step c)⟩ := by
  simp [ofQuoted, hc, hfeed]

theorem ofRegex_escape (inClass : Bool) (c : Char) :
    ofRegex r inClass .escape c = some ⟨r, .regex inClass (Pending.escape.step c)⟩ := by
  simp [ofRegex]

theorem ofRegex_plain {inClass inClass' : Bool} {p : Pending} {c : Char} (hp : p ≠ .escape)
    (hfeed : c ≠ '\n') (hslash : ¬ (c = '/' ∧ inClass = false))
    (hclass : inClassAfter inClass c = inClass') :
    ofRegex r inClass p c = some ⟨r, .regex inClass' (p.step c)⟩ := by
  simp [ofRegex, hp, hfeed, hslash, hclass]

/-- Whether a reader passes over the inside of a literal, in which no line feed is refused. -/
structure Passes (r : Reading) (start stop : Pending → Mode) (p : Pending) (cs : List Char) :
    Prop where
  read : readAll ⟨r, start p⟩ cs = some ⟨r, stop (cs.foldl Pending.step p)⟩
  free : cs.foldl Pending.step p ≠ .escape
  smooth : p.hangs cs = false

section Passing

variable {start mid stop : Pending → Mode} {p : Pending} {c : Char} {cs : List Char}

theorem Passes.cons (hfeed : c ≠ '\n') (hnext : next ⟨r, start p⟩ c = some ⟨r, mid (p.step c)⟩)
    (h : Passes r mid stop (p.step c) cs) : Passes r start stop p (c :: cs) where
  read := by rw [readAll_cons, hnext, Option.bind_some, h.read, List.foldl_cons]
  free := h.free
  smooth := by simp [Pending.hangs, hfeed, h.smooth]

theorem Passes.escape (hp : p ≠ .escape)
    (hnext : next ⟨r, start p⟩ '\\' = some ⟨r, start .escape⟩)
    (hnext' : next ⟨r, start .escape⟩ c = some ⟨r, start (Pending.escape.step c)⟩)
    (h : Passes r start stop (Pending.escape.step c) cs) :
    Passes r start stop p ('\\' :: c :: cs) where
  read := by
    rw [readAll_cons, hnext, Option.bind_some, readAll_cons, hnext', Option.bind_some, h.read,
      List.foldl_cons, List.foldl_cons, Pending.step_backslash hp]
  free := by
    rw [List.foldl_cons, List.foldl_cons, Pending.step_backslash hp]
    exact h.free
  smooth := by simp [Pending.hangs, Pending.step_backslash hp, h.smooth]

end Passing

theorem passes_quotedBody {quote : Char} (hquote : isQuote quote = true) {body : List Char}
    (h : QuotedBody quote body) {p : Pending} (hp : p ≠ .escape) :
    Passes r (.quoted quote) (.quoted quote) p body := by
  induction h generalizing p with
  | nil => exact ⟨rfl, hp, rfl⟩
  | escape c _ ih =>
    refine .escape hp ?_ (ofQuoted_escape quote c) (ih (Pending.step_ne_escape (.inl rfl)))
    rw [← Pending.step_backslash hp]
    exact ofQuoted_plain p (ne_of_isQuote hquote (by decide)) (by decide)
  | plain hc hesc hfeed _ ih =>
    exact .cons hfeed (ofQuoted_plain p hc hfeed) (ih (Pending.step_ne_escape (.inr hesc)))

theorem passes_regexBody {inClass stop : Bool} {body : List Char}
    (h : RegexBody inClass body stop) {p : Pending} (hp : p ≠ .escape) :
    Passes r (.regex inClass) (.regex stop) p body := by
  induction h generalizing p with
  | nil => exact ⟨rfl, hp, rfl⟩
  | escape c _ ih =>
    refine .escape hp ?_ (ofRegex_escape _ c) (ih (Pending.step_ne_escape (.inl rfl)))
    rw [← Pending.step_backslash hp]
    exact ofRegex_plain hp (by decide) (by simp) rfl
  | openClass _ ih =>
    exact .cons (by decide) (ofRegex_plain hp (by decide) (by simp) rfl)
      (ih (Pending.step_ne_escape (.inr (by decide))))
  | closeClass _ ih =>
    exact .cons (by decide) (ofRegex_plain hp (by decide) (by simp) rfl)
      (ih (Pending.step_ne_escape (.inr (by decide))))
  | @inside c cs b hesc hfeed hclose _ ih =>
    have hclass : inClassAfter true c = true := by simp [inClassAfter, hclose]
    exact .cons hfeed (ofRegex_plain hp hfeed (by simp) hclass)
      (ih (Pending.step_ne_escape (.inr hesc)))
  | @outside c cs b hesc hfeed hopen hslash _ ih =>
    have hclass : inClassAfter false c = false := by simp [inClassAfter, hopen]
    exact .cons hfeed (ofRegex_plain hp hfeed (by simp [hslash]) hclass)
      (ih (Pending.step_ne_escape (.inr hesc)))

end Reader

/-! ### Lexemes -/

end Scan

namespace Lexeme

/-- Whether a lexeme is a comment. -/
def isComment : Lexeme → Bool
  | lineComment _ _ => true
  | blockComment _ _ => true
  | jsxComment _ _ => true
  | _ => false

/-- Whether the tracker is asked what a lexeme is that `rest` follows: it is a slash that could
open a regular expression. -/
def asks (rest : List Char) : Lexeme → Bool
  | code c => c == '/' && opensRegex rest
  | regex _ _ => true
  | _ => false

/-- Whether, after a lexeme, the tracker may hold something that is gone: after a comment it may,
and it goes on to do so up to the next sign. -/
def obscures (stale : Bool) : Lexeme → Bool
  | code c => stale && (isWord c || isBlank c)
  | quoted _ _ _ => false
  | regex _ _ => false
  | closeTemplate => false
  | directive _ => false
  | lineComment _ _ => true
  | blockComment _ _ => true
  | jsxComment _ _ => true
  | _ => stale

theorem obscures_code (stale : Bool) (c : Char) :
    (code c).obscures stale = (stale && (isWord c || isBlank c)) := rfl

/-- Whether, in a string or regular expression or right after it, a line feed follows a space or
tab that was taken along by a backslash, and only such characters. -/
def hangs (rest : List Char) : Lexeme → Bool
  | quoted _ body _ => Scan.Pending.none.hangs body
  | regex body _ => Scan.Pending.none.hangs (body ++ rest.take 1)
  | _ => false

end Lexeme

namespace Scan

namespace Reader

/-- Whether a reader acts, before `rest`, like one between lexemes at the place of a scan. A stale
one may have another tracker, and may stand after a regular expression. -/
inductive Acts (stale : Bool) (a : Reader) (r : Reading) : List Char → Prop where
  | stop : a.ends = true → (stale = false → a.mode = .plain ∨ a.mode = .flags → a.reading = r) →
      Acts stale a r []
  | plain {c : Char} {cs : List Char} (t : Tracker) : (stale = false → t = r.tracker) →
      a.next c = next ⟨⟨r.layers, t⟩, .plain⟩ c → Acts stale a r (c :: cs)
  | flags {c : Char} {cs : List Char} (t : Tracker) : stale = true → r.place ≠ .template →
      a.next c = next ⟨⟨r.layers, t⟩, .flags⟩ c → Acts stale a r (c :: cs)

section Acting

variable {stale : Bool} {r : Reading} {rest : List Char}

theorem acts_plain {t : Tracker} (h : stale = false → t = r.tracker) :
    Acts stale ⟨⟨r.layers, t⟩, .plain⟩ r rest := by
  cases rest with
  | nil => exact .stop rfl fun hstale _ => congrArg (Reading.mk r.layers) (h hstale)
  | cons c cs => exact .plain t h rfl

theorem acts_self : Acts stale ⟨r, .plain⟩ r rest := acts_plain fun _ => rfl

theorem acts_flags {t : Tracker} (h : stale = true) (hplace : r.place ≠ .template) :
    Acts stale ⟨⟨r.layers, t⟩, .flags⟩ r rest := by
  cases rest with
  | nil => exact .stop rfl (by simp [h])
  | cons c cs => exact .flags t h hplace rfl

theorem readAll_of_next {a b : Reader} {c : Char} {cs : List Char} (h : a.next c = b.next c) :
    a.readAll (c :: cs) = b.readAll (c :: cs) := by
  rw [readAll_cons, readAll_cons, h]

end Acting

section Lexemes

variable {stale : Bool} {r : Reading} {rest : List Char} {t : Tracker}

theorem reads_code {c : Char} (hplace : r.place ≠ .template) (hquote : isQuote c = false)
    (htick : c ≠ backtick) (hdivides : c = '/' → r.Divides rest)
    (hasks : (Lexeme.code c).asks rest = true → t.canStartRegex = r.tracker.canStartRegex)
    (ht : stale = false → t = r.tracker) :
    ∃ a, readAll ⟨⟨r.layers, t⟩, .plain⟩ [c] = some a ∧
      a.Acts ((Lexeme.code c).obscures stale) (r.after (.code c)) rest := by
  simp only [readAll_cons, next_plain (r := ⟨r.layers, t⟩) hplace, Option.bind_some, readAll_nil,
    Option.some.injEq, exists_eq_left']
  by_cases hc : c = '/'
  · subst hc
    obtain ⟨hline, hblock, hregex⟩ := hdivides rfl
    have hslash : ofCode ⟨r.layers, t⟩ '/' = ⟨⟨r.layers, t⟩, .slash⟩ := rfl
    rw [hslash]
    cases rest with
    | nil => exact .stop rfl (by simp)
    | cons d ds =>
      refine .plain (r.after (.code '/')).tracker (fun _ => rfl) ?_
      have hd : d ≠ '/' := by simpa using hline
      have hd' : d ≠ '*' := by simpa using hblock
      have hopens : (t.canStartRegex && opensRegex [d]) = false := by
        by_cases hopens : opensRegex [d] = true
        · rwa [hasks hopens]
        · simp [hopens]
      have hplace' : (r.after (.code '/')).place ≠ .template := by
        rwa [Reading.after, Reading.countBrace_of_ne (by decide) (by decide)]
      have hsame : Reading.after ⟨r.layers, t⟩ (.code '/') = r.after (.code '/') := rfl
      exact (by simp [next, ofSlash, hd, hd', hopens, hsame] :
        next ⟨⟨r.layers, t⟩, .slash⟩ d = _).trans (next_plain hplace' d).symm
  · have hcode : ofCode ⟨r.layers, t⟩ c =
        ⟨⟨Reading.countBrace c r.layers, t.update c⟩, .plain⟩ := by
      simp [ofCode, hquote, htick, hc, Reading.after]
    rw [hcode]
    refine acts_plain (r := r.after (.code c)) fun hstale => ?_
    rw [Lexeme.obscures_code, Bool.and_eq_false_iff] at hstale
    rcases hstale with hstale | hsign
    · rw [ht hstale]
      rfl
    · -- after a sign the tracker has forgotten what came before
      rw [Bool.or_eq_false_iff] at hsign
      simp [Tracker.update, hsign.1, hsign.2, Reading.after]

/-- A reader comes from code into a string. -/
theorem readAll_quoted {quote : Char} {body : List Char} (hplace : r.place ≠ .template)
    (hquote : isQuote quote = true) (hbody : QuotedBody quote body) :
    readAll ⟨⟨r.layers, t⟩, .plain⟩ (quote :: body) =
      some ⟨⟨r.layers, t⟩, .quoted quote (body.foldl Pending.step .none)⟩ := by
  have hopen : next ⟨⟨r.layers, t⟩, .plain⟩ quote = some ⟨⟨r.layers, t⟩, .quoted quote .none⟩ := by
    rw [next_plain (r := ⟨r.layers, t⟩) hplace]
    simp [ofCode, hquote]
  rw [readAll_cons, hopen, Option.bind_some]
  exact (passes_quotedBody hquote hbody (by decide)).read

theorem reads_quoted {quote : Char} {body ending : List Char} {closed : Bool}
    (hplace : r.place ≠ .template) (hquote : isQuote quote = true) (hbody : QuotedBody quote body)
    (hend : QuotedEnd quote closed ending rest)
    (hhangs : (Lexeme.quoted quote (body ++ ending) closed).hangs rest = false) :
    ∃ a, readAll ⟨⟨r.layers, t⟩, .plain⟩ (quote :: (body ++ ending)) = some a ∧
      a.Acts false ⟨r.layers, .resetTo quote⟩ rest := by
  have hread := readAll_quoted (t := t) hplace hquote hbody
  have hfree := (passes_quotedBody (r := r) hquote hbody (p := .none) (by decide)).free
  rw [Lexeme.hangs, Pending.hangs_append, Bool.or_eq_false_iff] at hhangs
  rw [← List.cons_append, readAll_append, hread, Option.bind_some]
  generalize body.foldl Pending.step .none = p at hfree hhangs
  cases hend with
  | quote rest =>
    refine ⟨⟨⟨r.layers, .resetTo quote⟩, .plain⟩, ?_, acts_self⟩
    have hfeed : quote ≠ '\n' := (ne_of_isQuote hquote (by decide)).symm
    simp [next, ofQuoted, hfree, hfeed]
  | feed rest =>
    refine ⟨⟨⟨r.layers, .resetTo quote⟩, .plain⟩, ?_, acts_self⟩
    have hhanging : p ≠ .hanging := by simpa [Pending.hangs] using hhangs.2
    simp [next, ofQuoted, hfree, hhanging]
  | stop => exact ⟨_, rfl, .stop rfl (by simp)⟩
  | backslash =>
    refine ⟨⟨⟨r.layers, t⟩, .quoted quote .escape⟩, ?_, .stop rfl (by simp)⟩
    have hesc := ne_of_isQuote hquote (c := '\\') (by decide)
    simp [next, ofQuoted_plain p hesc, Pending.step_backslash hfree]

theorem readAll_flags {flags : List Char} (h : ∀ c ∈ flags, isAlphabetic c = true) :
    readAll ⟨r, .flags⟩ flags = some ⟨r, .flags⟩ := by
  induction flags with
  | nil => rfl
  | cons c flags ih =>
    simp only [List.mem_cons, forall_eq_or_imp] at h
    simp only [readAll_cons, next, h.1, if_true, Option.bind_some]
    exact ih h.2

/-- A reader comes from code into a regular expression: the character after the slash is read as
the first one of it. -/
theorem readAll_regex {body ending : List Char} {closed inClass : Bool}
    (hplace : r.place ≠ .template) (hstart : r.tracker.canStartRegex = true)
    (hopens : opensRegex (body ++ (ending ++ rest)) = true) (hbody : RegexBody false body inClass)
    (hend : RegexEnd inClass closed ending rest) :
    readAll ⟨r, .plain⟩ ('/' :: (body ++ ending)) =
      readAll ⟨r, .regex inClass (body.foldl Pending.step .none)⟩ ending := by
  have hfirst : readAll ⟨r, .slash⟩ (body ++ ending) =
      readAll ⟨r, .regex false .none⟩ (body ++ ending) := by
    rw [← List.append_assoc] at hopens
    cases htext : body ++ ending with
    | nil =>
      obtain ⟨rfl, rfl⟩ := List.append_eq_nil_iff.mp htext
      cases hend <;> simp [opensRegex] at hopens
    | cons d ds =>
      rw [htext] at hopens
      have hd : opensRegex [d] = true := hopens
      refine readAll_of_next ?_
      have hline : d ≠ '/' := by
        rintro rfl
        simp [opensRegex] at hd
      have hblock : d ≠ '*' := by
        rintro rfl
        simp [opensRegex] at hd
      simp [next, ofSlash, hline, hblock, hstart, hd]
  rw [readAll_cons, next_plain_slash hplace, Option.bind_some, hfirst, readAll_append,
    (passes_regexBody hbody (by decide)).read, Option.bind_some]

theorem reads_regex {body ending : List Char} {closed inClass : Bool}
    (hplace : r.place ≠ .template) (hstart : r.tracker.canStartRegex = true)
    (hopens : opensRegex (body ++ (ending ++ rest)) = true) (hbody : RegexBody false body inClass)
    (hend : RegexEnd inClass closed ending rest)
    (hhangs : (Lexeme.regex (body ++ ending) closed).hangs rest = false) :
    ∃ a, readAll ⟨r, .plain⟩ ('/' :: (body ++ ending)) = some a ∧
      a.Acts false ⟨r.layers, .resetTo '/'⟩ rest := by
  have hfree := (passes_regexBody (r := r) hbody (p := .none) (by decide)).free
  rw [Lexeme.hangs, List.append_assoc, Pending.hangs_append, Bool.or_eq_false_iff] at hhangs
  rw [readAll_regex hplace hstart hopens hbody hend]
  generalize body.foldl Pending.step .none = p at hfree hhangs
  cases hend with
  | @slash flags rest hflags hrest =>
    refine ⟨⟨⟨r.layers, .resetTo '/'⟩, .flags⟩, ?_, ?_⟩
    · have hclose : next ⟨r, .regex false p⟩ '/' = some ⟨⟨r.layers, .resetTo '/'⟩, .flags⟩ := by
        simp [next, ofRegex, hfree]
      rw [readAll_cons, hclose, Option.bind_some, readAll_flags hflags]
    · cases rest with
      | nil => exact .stop rfl fun _ _ => rfl
      | cons d ds =>
        have hd : ¬ isAlphabetic d = true := hrest d rfl
        refine .plain _ (fun _ => rfl) ?_
        rw [next_plain (r := ⟨r.layers, .resetTo '/'⟩) hplace]
        simp [next, hd]
  | feed _ rest =>
    refine ⟨⟨r, .regex inClass p⟩, rfl, .plain _ (fun _ => rfl) ?_⟩
    have hhanging : p ≠ .hanging := by simpa [Pending.hangs] using hhangs.2
    rw [next_plain (r := ⟨r.layers, .resetTo '/'⟩) hplace, ofCode_blank _ (by decide)]
    simp [next, ofRegex, hfree, hhanging]
  | stop => exact ⟨_, rfl, .stop rfl (by simp)⟩
  | backslash =>
    refine ⟨⟨r, .regex inClass .escape⟩, ?_, .stop rfl (by simp)⟩
    rw [← Pending.step_backslash hfree]
    have hclass : inClassAfter inClass '\\' = inClass := rfl
    simp [next, ofRegex_plain hfree (by decide : '\\' ≠ '\n') (by simp) hclass]

/-- A reader goes on in a line to its end. -/
theorem readAll_line {cs : List Char} (h : '\n' ∉ cs) (text : List Char) :
    readAll ⟨r, .line text⟩ cs = some ⟨r, .line (text ++ cs)⟩ := by
  induction cs generalizing text with
  | nil => simp
  | cons c cs ih =>
    rw [List.mem_cons, not_or] at h
    simp [next, Ne.symm h.1, ih h.2]

/-- Two slashes start a line at top level. -/
theorem readAll_slashes (hplace : r.place = .topLevel) {cs : List Char} (h : '\n' ∉ cs) :
    readAll ⟨⟨r.layers, t⟩, .plain⟩ ('/' :: '/' :: cs) =
      some ⟨⟨r.layers, t⟩, .line ('/' :: '/' :: cs)⟩ := by
  have hcode : r.place ≠ .template := by simp [hplace]
  have htop : Reading.place ⟨r.layers, t⟩ = .topLevel := hplace
  have hline : next ⟨⟨r.layers, t⟩, .slash⟩ '/' = some ⟨⟨r.layers, t⟩, .line ['/', '/']⟩ := by
    simp [next, ofSlash, htop]
  rw [readAll_cons, next_plain_slash (r := ⟨r.layers, t⟩) hcode, Option.bind_some, readAll_cons,
    hline, Option.bind_some, readAll_line h]
  rfl

theorem reads_directive {line : List Char} (hplace : r.place = .topLevel)
    (hdir : isDirective line = true) (hline : FullLine line rest) :
    ∃ a, readAll ⟨⟨r.layers, t⟩, .plain⟩ line = some a ∧
      a.Acts false ⟨r.layers, .resetTo '\n'⟩ rest := by
  have hslashes : ∀ {line : List Char}, isDirective line = true → '\n' ∉ line →
      readAll ⟨⟨r.layers, t⟩, .plain⟩ line = some ⟨⟨r.layers, t⟩, .line line⟩ := by
    intro line hdir hfeed
    obtain ⟨tail, rfl⟩ := slashes_of_isDirective hdir
    exact readAll_slashes hplace (by simpa using hfeed)
  cases hline with
  | feed line rest hfeed =>
    have hdir' : isDirective line = true := by
      rwa [← isDirective_takeWhile, (takeWhile_line hfeed []).1] at hdir
    refine ⟨⟨⟨r.layers, .resetTo '\n'⟩, .plain⟩, ?_, acts_self⟩
    rw [readAll_append, hslashes hdir' hfeed]
    simp [next, hdir']
  | stop hfeed => exact ⟨_, hslashes hdir hfeed, .stop hdir (by simp)⟩

/-- In a template, a reader reads the next lexeme to where the scan comes. -/
theorem reads_template {l : Lexeme} (h : Fits r l rest) (hplace : r.place = .template)
    (ht : stale = false → t = r.tracker) :
    ∃ a, readAll ⟨⟨r.layers, t⟩, .plain⟩ l.text = some a ∧
      a.Acts (l.obscures stale) (r.after l) rest := by
  have hnext : ∀ c, next ⟨⟨r.layers, t⟩, .plain⟩ c = some (ofTemplate ⟨r.layers, t⟩ c) :=
    next_plain_template (r := ⟨r.layers, t⟩) hplace
  cases h with
  | escape c _ _ =>
    refine ⟨⟨⟨r.layers, t⟩, .plain⟩, ?_, acts_plain (r := r) ht⟩
    rw [Lexeme.text, readAll_cons, hnext]
    rfl
  | backslash _ =>
    refine ⟨⟨⟨r.layers, t⟩, .escape⟩, ?_, .stop rfl (by simp)⟩
    rw [Lexeme.text, readAll_cons, hnext]
    rfl
  | closeTemplate _ _ =>
    refine ⟨⟨r.after .closeTemplate, .plain⟩, ?_, acts_self⟩
    rw [Lexeme.text, readAll_cons, hnext]
    rfl
  | openInterpolation _ _ =>
    refine ⟨⟨⟨.interpolation 1 :: r.layers, t⟩, .plain⟩, ?_,
      acts_plain (r := r.after .openInterpolation) ht⟩
    rw [Lexeme.text, readAll_cons, hnext]
    rfl
  | @templateText c _ _ hesc htick hdollar =>
    rw [Lexeme.text, readAll_cons, hnext]
    by_cases hc : c = '$'
    · subst hc
      refine ⟨⟨⟨r.layers, t⟩, .dollar⟩, rfl, ?_⟩
      cases rest with
      | nil => exact .stop rfl (by simp)
      | cons d ds =>
        have hd : d ≠ '{' := by simpa using hdollar rfl
        refine .plain t ht (Eq.trans ?_ (hnext d).symm)
        simp [next, hd]
    · refine ⟨⟨⟨r.layers, t⟩, .plain⟩, ?_, acts_plain (r := r) ht⟩
      simp [ofTemplate, hesc, htick, hc]
  | code hcode | quoted hcode | regex hcode | openTemplate _ hcode | lineComment hcode
  | blockComment hcode => exact absurd hplace hcode
  | directive htop => simp [htop] at hplace

/-- A reader that is plain at the place of a scan reads the next lexeme to where the scan comes. -/
theorem reads_plain {l : Lexeme} (h : Fits r l rest) (hcomment : l.isComment = false)
    (hasks : l.asks rest = true → t.canStartRegex = r.tracker.canStartRegex)
    (hhangs : l.hangs rest = false) (ht : stale = false → t = r.tracker) :
    ∃ a, readAll ⟨⟨r.layers, t⟩, .plain⟩ l.text = some a ∧
      a.Acts (l.obscures stale) (r.after l) rest := by
  by_cases htemplate : r.place = .template
  · exact reads_template h htemplate ht
  cases h with
  | code hplace hquote htick hdivides =>
    exact reads_code hplace hquote htick hdivides hasks ht
  | quoted hplace hquote hbody hend => exact reads_quoted hplace hquote hbody hend hhangs
  | regex hplace hstart hopens hbody hend =>
    exact reads_regex (r := ⟨r.layers, t⟩) hplace ((hasks rfl).trans hstart) hopens hbody hend
      hhangs
  | directive hplace hdir hline => exact reads_directive hplace hdir hline
  | lineComment => simp [Lexeme.isComment] at hcomment
  | blockComment => simp [Lexeme.isComment] at hcomment
  | openTemplate _ hplace =>
    refine ⟨⟨⟨.template :: r.layers, t⟩, .plain⟩, ?_, acts_plain (r := r.after .openTemplate) ht⟩
    rw [Lexeme.text, readAll_cons, next_plain (r := ⟨r.layers, t⟩) hplace]
    rfl
  | escape _ _ hplace | backslash hplace | templateText hplace | closeTemplate _ hplace
  | openInterpolation _ hplace => exact absurd hplace htemplate

/-- A lexeme of code that starts with a letter is a character of code. -/
theorem eq_code_of_alphabetic {l : Lexeme} (h : Fits r l rest) (hplace : r.place ≠ .template)
    {c : Char} {cs : List Char} (htext : l.text = c :: cs) (hc : isAlphabetic c = true) :
    l = .code c ∧ cs = [] := by
  have hne : ∀ d : Char, isAlphabetic d = false → d ≠ c := by
    rintro d hd rfl
    simp [hc] at hd
  cases h with
  | code =>
    obtain ⟨rfl, rfl⟩ := List.cons.inj htext
    exact ⟨rfl, rfl⟩
  | quoted _ hquote =>
    obtain ⟨rfl, -⟩ := List.cons.inj htext
    rcases (by simpa [isQuote] using hquote : _ = '\x22' ∨ _ = '\x27') with rfl | rfl
    · exact absurd rfl (hne '\x22' (by decide))
    · exact absurd rfl (hne '\x27' (by decide))
  | regex | lineComment | blockComment =>
    exact absurd (List.cons.inj htext).1 (hne '/' (by decide))
  | openTemplate => exact absurd (List.cons.inj htext).1 (hne backtick (by decide))
  | directive _ hdir =>
    obtain ⟨tail, rfl⟩ := slashes_of_isDirective hdir
    exact absurd (List.cons.inj htext).1 (hne '/' (by decide))
  | escape _ _ htemplate | backslash htemplate | templateText htemplate
  | closeTemplate _ htemplate | openInterpolation _ htemplate => exact absurd htemplate hplace

/-- After a regular expression, letters are read as flags. -/
theorem reads_flag {c : Char} (hplace : r.place ≠ .template) (hc : isAlphabetic c = true) :
    readAll ⟨⟨r.layers, t⟩, .flags⟩ [c] = some ⟨⟨r.layers, t⟩, .flags⟩ ∧
      Acts ((Lexeme.code c).obscures true) ⟨⟨r.layers, t⟩, .flags⟩ (r.after (.code c)) rest := by
  have hopen : c ≠ '{' := by
    rintro rfl
    exact absurd hc (by decide)
  have hclose : c ≠ '}' := by
    rintro rfl
    exact absurd hc (by decide)
  have hlayers : (r.after (.code c)).layers = r.layers :=
    Reading.countBrace_of_ne hopen hclose r.layers
  have hplace' : (r.after (.code c)).place ≠ .template := by rwa [Reading.place, hlayers]
  refine ⟨readAll_flags (by simpa using hc), ?_⟩
  rw [← hlayers]
  exact acts_flags (by simp [Lexeme.obscures_code, isWord, hc]) hplace'

/-- A slash is met as one between lexemes of code only. -/
theorem reading_of_next_slash {a : Reader} (h : a.next '/' = some ⟨r, .slash⟩) :
    a.reading = r ∧ (a.mode = .plain ∨ a.mode = .flags) := by
  obtain ⟨q, mode⟩ := a
  cases mode with
  | plain =>
    by_cases hplace : q.place = .template
    · rw [next_plain_template hplace] at h
      cases h
    · rw [next_plain_slash hplace] at h
      cases h
      exact ⟨rfl, .inl rfl⟩
  | flags =>
    rw [next_flags (by decide)] at h
    cases h
    exact ⟨rfl, .inr rfl⟩
  | slash =>
    simp only [next, ofSlash, if_true] at h
    split_ifs at h
    cases h
  | line text => simp [next] at h
  | quoted quote p =>
    simp only [next, ofQuoted] at h
    split_ifs at h <;> cases h
  | regex inClass p =>
    simp only [next, ofRegex] at h
    split_ifs at h <;> cases h
  | escape => cases h
  | dollar => cases h

/-- A reader at the place of a scan that reads a slash is between lexemes of code. -/
theorem Acts.reading_slash {a : Reader} {cs : List Char} (h : a.Acts stale r ('/' :: cs))
    (hplace : r.place ≠ .template) :
    a.reading.layers = r.layers ∧ (stale = false → a.reading = r) ∧
      (a.mode = .plain ∨ a.mode = .flags) := by
  cases h with
  | plain t ht hnext =>
    rw [next_plain_slash (r := ⟨r.layers, t⟩) hplace] at hnext
    obtain ⟨hreading, hmode⟩ := reading_of_next_slash hnext
    rw [hreading]
    exact ⟨rfl, fun hstale => congrArg (Reading.mk r.layers) (ht hstale), hmode⟩
  | flags t hstale _ hnext =>
    rw [next_flags (by decide)] at hnext
    obtain ⟨hreading, hmode⟩ := reading_of_next_slash hnext
    rw [hreading]
    exact ⟨rfl, by simp [hstale], hmode⟩

/-- A lexeme of which the tracker is asked is a slash of code. -/
theorem slash_of_asks {l : Lexeme} (h : Fits r l rest) (hasks : l.asks rest = true) :
    r.place ≠ .template ∧ ∃ cs, l.text = '/' :: cs := by
  cases h with
  | @code c _ hplace =>
    have hc : c = '/' ∧ opensRegex rest = true := by simpa [Lexeme.asks] using hasks
    exact ⟨hplace, [], by rw [Lexeme.text, hc.1]⟩
  | regex hplace => exact ⟨hplace, _, rfl⟩
  | _ => cases hasks

end Lexemes

end Reader

open Reader

/-- **A reader at the place of a scan reads the next lexeme to where the scan comes**, if it is no
comment, and if the trackers agree where they are asked. -/
theorem Fits.reads {r : Reading} {l : Lexeme} {rest : List Char} (h : Fits r l rest) {stale : Bool}
    {a : Reader} (hacts : a.Acts stale r (l.text ++ rest)) (hcomment : l.isComment = false)
    (hasks : l.asks rest = true → a.reading.tracker.canStartRegex = r.tracker.canStartRegex)
    (hhangs : l.hangs rest = false) :
    ∃ b, a.readAll l.text = some b ∧ b.Acts (l.obscures stale) (r.after l) rest := by
  obtain ⟨c, cs, htext⟩ := List.exists_cons_of_ne_nil h.text_ne
  rw [htext, List.cons_append] at hacts
  have hplain : ∀ {t : Tracker}, (stale = false → t = r.tracker) →
      a.next c = Reader.next ⟨⟨r.layers, t⟩, .plain⟩ c →
      ∃ b, a.readAll l.text = some b ∧ b.Acts (l.obscures stale) (r.after l) rest := by
    intro t ht hnext
    have hasks' : l.asks rest = true → t.canStartRegex = r.tracker.canStartRegex := by
      intro hl
      obtain ⟨hplace, ds, hslash⟩ := slash_of_asks h hl
      obtain rfl : c = '/' := (List.cons.inj (htext.symm.trans hslash)).1
      rw [next_plain_slash (r := ⟨r.layers, t⟩) hplace] at hnext
      rw [← hasks hl, (reading_of_next_slash hnext).1]
    obtain ⟨b, hread, hb⟩ := reads_plain h hcomment hasks' hhangs ht
    rw [htext] at hread ⊢
    exact ⟨b, (readAll_of_next hnext).trans hread, hb⟩
  cases hacts with
  | plain t ht hnext => exact hplain ht hnext
  | flags t hstale hplace hnext =>
    by_cases hc : isAlphabetic c = true
    · obtain ⟨rfl, rfl⟩ := eq_code_of_alphabetic h hplace htext hc
      obtain ⟨hread, hb⟩ := reads_flag (t := t) hplace hc
      rw [hstale]
      exact ⟨_, (readAll_of_next hnext).trans hread, hb⟩
    · refine hplain (t := t) (by simp [hstale]) (hnext.trans ?_)
      rw [next_plain (r := ⟨r.layers, t⟩) hplace]
      simp [Reader.next, hc]

/-! ### Texts without comments -/

namespace Reader

section Comments

variable {r : Reading} {rest : List Char} {t : Tracker} {e : Reader}

/-- A reader refuses a line that starts with two slashes and is no directive. -/
theorem line_refused {body ending : List Char} (hend : LineEnd body ending rest)
    (hbody : '\n' ∉ body)
    (hdir : isDirective (Lexeme.lineComment body ending).text = false)
    (hread : readAll ⟨r, .line ('/' :: '/' :: body)⟩ (ending ++ rest) = some e) :
    e.ends = false := by
  have hslashes : '\n' ∉ '/' :: '/' :: body := by simpa using hbody
  cases hend with
  | feed rest _ =>
    rw [Lexeme.text, ← isDirective_takeWhile, (takeWhile_line hslashes []).1] at hdir
    simp [next, hdir] at hread
  | crlf rest =>
    have hreturn := isDirective_blank (by decide : isBlank '\r' = true) ('/' :: '/' :: body)
    rw [Lexeme.text, isDirective_crlf_line hslashes, ← isDirective_takeWhile,
      (takeWhile_line hslashes []).1, ← hreturn] at hdir
    simp only [List.cons_append] at hdir
    simp [next, hdir] at hread
  | stop =>
    obtain rfl : _ = e := by simpa using hread
    rwa [Lexeme.text, List.append_nil] at hdir

/-- A reader refuses a comment. -/
theorem not_comment {l : Lexeme} (h : Fits r l rest)
    (hread : readAll ⟨⟨r.layers, t⟩, .plain⟩ (l.text ++ rest) = some e) (hends : e.ends = true) :
    l.isComment = false := by
  cases h with
  | blockComment hplace _ =>
    rw [Lexeme.text, List.cons_append, readAll_cons,
      next_plain_slash (r := ⟨r.layers, t⟩) hplace] at hread
    cases hread
  | @lineComment body ending _ hplace hbody hend hdir =>
    have htext : (Lexeme.lineComment body ending).text ++ rest =
        '/' :: '/' :: (body ++ (ending ++ rest)) := by simp [Lexeme.text]
    rw [htext] at hread
    by_cases htop : r.place = .topLevel
    · rw [← List.cons_append, ← List.cons_append, readAll_append,
        readAll_slashes htop hbody] at hread
      rw [line_refused hend hbody (hdir htop) hread] at hends
      cases hends
    · have htop' : Reading.place ⟨r.layers, t⟩ ≠ .topLevel := htop
      have hrefused : next ⟨⟨r.layers, t⟩, .slash⟩ '/' = none := by simp [next, ofSlash, htop']
      rw [readAll_cons, next_plain_slash (r := ⟨r.layers, t⟩) hplace, Option.bind_some,
        readAll_cons, hrefused] at hread
      cases hread
  | _ => rfl

/-- In what a reader reads, no space or tab taken along hangs at the end of a line. -/
theorem not_hangs {l : Lexeme} (h : Fits r l rest)
    (hread : readAll ⟨r, .plain⟩ (l.text ++ rest) = some e) : l.hangs rest = false := by
  cases h with
  | @quoted quote body ending _ closed hplace hquote hbody hend =>
    have hpass := passes_quotedBody (r := r) hquote hbody (p := .none) (by decide)
    have hquoted := readAll_quoted (t := r.tracker) hplace hquote hbody
    rw [Lexeme.hangs, Pending.hangs_append, hpass.smooth, Bool.false_or]
    cases hend with
    | quote rest =>
      have hfeed : quote ≠ '\n' := (ne_of_isQuote hquote (by decide)).symm
      simp [Pending.hangs, hfeed]
    | feed rest =>
      rw [Lexeme.text, ← List.cons_append, List.append_assoc, readAll_append, hquoted] at hread
      have hhanging : body.foldl Pending.step .none ≠ .hanging := by
        intro hhanging
        simp [hhanging, next, ofQuoted] at hread
      simp [Pending.hangs, hhanging]
    | stop => rfl
    | backslash => simp [Pending.hangs]
  | @regex body ending _ closed inClass hplace hstart hopens hbody hend =>
    have hpass := passes_regexBody (r := r) hbody (p := .none) (by decide)
    rw [Lexeme.text, readAll_append, readAll_regex hplace hstart hopens hbody hend] at hread
    rw [Lexeme.hangs, List.append_assoc, Pending.hangs_append, hpass.smooth, Bool.false_or]
    cases hend with
    | slash hflags _ =>
      have hslash : (body.foldl Pending.step .none).step '/' = .none := by
        have hfree := hpass.free
        generalize body.foldl Pending.step .none = p at hfree
        cases p with
        | escape => exact absurd rfl hfree
        | none => rfl
        | hanging => rfl
      simp [Pending.hangs, hslash, Pending.hangs_flags hflags]
    | feed _ rest =>
      have hhanging : body.foldl Pending.step .none ≠ .hanging := by
        intro hhanging
        simp [hhanging, next, ofRegex] at hread
      simp [Pending.hangs, hhanging]
    | stop => rfl
    | backslash => simp [Pending.hangs]
  | _ => rfl

end Comments

end Reader

theorem leaves_of_not_comment {l : Lexeme} (h : l.isComment = false) : l.leaves = l.text := by
  cases l <;> first | rfl | simp [Lexeme.isComment] at h

theorem obscures_of_not_comment {l : Lexeme} (h : l.isComment = false) :
    l.obscures false = false := by
  cases l <;> first | rfl | simp [Lexeme.isComment] at h

theorem counts_of_not_comment {l : Lexeme} (h : l.isComment = false) : l.counts.removed = 0 := by
  cases l <;> first | rfl | simp [Lexeme.isComment] at h

theorem removed_add (s t : Stats) : (s + t).removed = s.removed + t.removed := by
  simp only [Stats.removed, Stats.add_def]
  omega

/-- A lexeme that is no comment is read with all options. -/
theorem step_of_not_comment (o : ScanOptions) {s : State} {c : Char} {cs : List Char}
    (h : (next keepBraces s c cs).1.isComment = false) :
    step o s c cs = absorb s (next keepBraces s c cs).1 (next keepBraces s c cs).2 := by
  rw [step, next_eq_joinBraces, joinBraces_of_ne]
  intro body hbody
  rw [hbody] at h
  cases h

/-- A reader that is not stale is plain for the next character. -/
theorem Reader.Acts.next_eq {a : Reader} {r : Reading} {c : Char} {cs : List Char}
    (h : a.Acts false r (c :: cs)) : a.next c = Reader.next ⟨r, .plain⟩ c := by
  cases h with
  | plain t ht hnext => rwa [ht rfl] at hnext
  | flags t hstale => cases hstale

/-- From what a reader reads to its end, a scan removes nothing, and it comes to where the reader
comes. -/
theorem run_of_read (o : ScanOptions) (s : State) {a e : Reader}
    (hacts : a.Acts false s.reading s.rest) (hread : a.readAll s.rest = some e)
    (hends : e.ends = true) :
    (run o s).out = s.rest.reverse ++ s.out ∧ (run o s).stats.removed = s.stats.removed ∧
      (e.mode = .plain ∨ e.mode = .flags → e.reading = (run o s).reading) := by
  induction s using scan_induction o generalizing a with
  | hnil s hrest =>
    rw [hrest] at hacts hread
    cases hread
    rw [run_nil o hrest, hrest]
    cases hacts with
    | stop _ hreading => exact ⟨rfl, rfl, hreading rfl⟩
  | hcons s c cs hrest ih =>
    have hfits := fits_next s c cs
    have htext := next_append keepBraces s c cs
    have hstep := @step_of_not_comment o s c cs
    generalize next keepBraces s c cs = read at hfits htext hstep
    obtain ⟨l, rest⟩ := read
    rw [hrest] at hacts hread
    have hplain : Reader.readAll ⟨s.reading, .plain⟩ (l.text ++ rest) = some e := by
      rw [htext, ← hread, Reader.readAll_of_next hacts.next_eq]
    have hcomment := Reader.not_comment hfits hplain hends
    rw [← htext] at hacts hread
    have hasks : l.asks rest = true →
        a.reading.tracker.canStartRegex = s.reading.tracker.canStartRegex := by
      intro hl
      obtain ⟨hplace, ds, hslash⟩ := Reader.slash_of_asks hfits hl
      rw [hslash, List.cons_append] at hacts
      rw [(hacts.reading_slash hplace).2.1 rfl]
    obtain ⟨b, hb, hbacts⟩ := hfits.reads hacts hcomment hasks (Reader.not_hangs hfits hplain)
    rw [Reader.readAll_append, hb, Option.bind_some] at hread
    rw [obscures_of_not_comment hcomment, ← reading_absorb s l rest] at hbacts
    rw [hstep hcomment, absorb_rest] at ih
    obtain ⟨hout, hremoved, hreading⟩ := ih hbacts hread
    rw [run_cons o hrest, hstep hcomment, hout, hremoved]
    refine ⟨?_, ?_, hreading⟩
    · rw [out_absorb s hfits, leaves_of_not_comment hcomment, hrest, ← htext]
      simp
    · rw [stats_absorb, removed_add, counts_of_not_comment hcomment, Nat.add_zero]

end Scan

/-- Whether a text holds no comments, and no backslash whose doing hangs on the end of a line. -/
def Clear (cs : List Char) : Prop := ∃ e, Scan.Reader.readAll {} cs = some e ∧ e.ends = true

/-- **From a text without comments nothing is removed.** -/
theorem strip_of_clear (o : ScanOptions) {source : String} (h : Clear source.toList) :
    (strip o source).text = source ∧ (strip o source).stats.removed = 0 := by
  obtain ⟨e, hread, hends⟩ := h
  have hrun := Scan.run_of_read o { rest := source.toList } Scan.Reader.acts_self hread hends
  simp only [strip, hrun.1, hrun.2.1]
  simp
  rfl

end Uncomment
