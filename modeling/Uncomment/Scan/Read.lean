/-
# Reading a lexeme

How the next character is read depends on the innermost open frame: inside a template it
is text unless it closes the template or opens an interpolation, and everywhere else it is
code, in which quotes, backticks and slashes open lexemes of their own.

A lexeme together with what follows it is the text that was there, and no lexeme is
empty, so reading loses nothing and gets on.

Key definitions: `Scan.next`.
Key theorems: `Scan.next_append`, `Scan.next_text_ne`.
-/
import Uncomment.Scan.Directive
import Uncomment.Scan.Extent
import Uncomment.Scan.Lexeme
import Uncomment.Scan.State

namespace Uncomment

open Text

namespace Scan

/-! ### Each kind of lexeme -/

/-- The first `n` characters as the body of a lexeme, and what follows them. -/
def cut (n : Nat) (make : List Char → Lexeme) (cs : List Char) : Lexeme × List Char :=
  (make (cs.take n), cs.drop n)

/-- The string that starts with `quote`. -/
def nextQuoted (quote : Char) (cs : List Char) : Lexeme × List Char :=
  let extent := quotedExtent quote 0 cs
  cut extent.length (.quoted quote · extent.closed) cs

/-- The regular expression that starts with a slash. -/
def nextRegex (cs : List Char) : Lexeme × List Char :=
  let extent := regexExtent false 0 cs
  cut extent.length (.regex · extent.closed) cs

/-- The line comment that starts with two slashes. A carriage return directly before the line
feed is part of the line terminator. -/
def nextLineComment (cs : List Char) : Lexeme × List Char :=
  let body := cs.takeWhile (· ≠ '\n')
  match cs.dropWhile (· ≠ '\n') with
  | [] => (.lineComment body [], [])
  | feed :: rest =>
    if body.getLast? = some '\r' then (.lineComment body.dropLast ['\r', feed], rest)
    else (.lineComment body [feed], rest)

/-- Whether the last thing written, spaces and tabs apart, is an opening brace. -/
def followsBrace (out : List Char) : Bool := (out.dropWhile isSpaceOrTab).head? == some '{'

/-- Whether the next thing to read, spaces and tabs apart, is a closing brace. -/
def facesBrace (cs : List Char) : Bool := (cs.dropWhile isSpaceOrTab).head? == some '}'

/-- The block comment that starts with a slash and an asterisk. -/
def nextBlockComment (alone : List Char → Bool) (cs : List Char) : Lexeme × List Char :=
  let extent := blockExtent 0 cs
  let body := cs.take extent.length
  let rest := cs.drop extent.length
  if extent.closed && alone rest then
    cut ((rest.takeWhile isSpaceOrTab).length + 1) (.jsxComment body ·) rest
  else (.blockComment body extent.closed, rest)

/-- Whether a comment at the present place stands alone in braces that go with it, given what
follows it. -/
def State.bracesGo (o : ScanOptions) (s : State) (ctx : Context) (rest : List Char) : Bool :=
  ctx == .topLevel && o.jsxComments && followsBrace s.out && facesBrace rest

/-- The lexeme that starts with a slash in code. -/
def nextSlash (o : ScanOptions) (s : State) (ctx : Context) (cs : List Char) :
    Lexeme × List Char :=
  if ctx == .topLevel && isDirective ('/' :: cs) then
    cut (lineExtent 0 ('/' :: cs)).length .directive ('/' :: cs)
  else
    match cs with
    | '/' :: cs => nextLineComment cs
    | '*' :: cs => nextBlockComment (s.bracesGo o ctx) cs
    | cs => if s.tracker.canStartRegex && opensRegex cs then nextRegex cs else (.code '/', cs)

/-- The lexeme that starts with `c` in code. -/
def nextCode (o : ScanOptions) (s : State) (ctx : Context) (c : Char) (cs : List Char) :
    Lexeme × List Char :=
  if isQuote c then nextQuoted c cs
  else if c = backtick then (.openTemplate, cs)
  else if c = '/' then nextSlash o s ctx cs
  else (.code c, cs)

/-- The lexeme that starts with `c` in a template. -/
def nextTemplate (c : Char) (cs : List Char) : Lexeme × List Char :=
  if c = '\\' then cut 2 .templateText (c :: cs)
  else if c = backtick then (.closeTemplate, cs)
  else if c = '$' ∧ cs.head? = some '{' then (.openInterpolation, cs.tail)
  else (.templateText [c], cs)

/-- The lexeme that starts with `c`, and what follows it. -/
def next (o : ScanOptions) (s : State) (c : Char) (cs : List Char) : Lexeme × List Char :=
  match s.frames with
  | [] => nextCode o s .topLevel c cs
  | .template _ :: _ => nextTemplate c cs
  | .interpolation _ _ :: _ => nextCode o s .interpolation c cs

/-! ### Nothing is lost -/

theorem nextQuoted_append (quote : Char) (cs : List Char) :
    (nextQuoted quote cs).1.text ++ (nextQuoted quote cs).2 = quote :: cs := by
  simp [nextQuoted, cut, Lexeme.text]

theorem nextRegex_append (cs : List Char) :
    (nextRegex cs).1.text ++ (nextRegex cs).2 = '/' :: cs := by
  simp [nextRegex, cut, Lexeme.text]

theorem nextLineComment_append (cs : List Char) :
    (nextLineComment cs).1.text ++ (nextLineComment cs).2 = '/' :: '/' :: cs := by
  have whole := List.takeWhile_append_dropWhile (p := (fun c => decide (c ≠ '\n'))) (l := cs)
  unfold nextLineComment
  generalize cs.takeWhile (· ≠ '\n') = body at whole ⊢
  generalize cs.dropWhile (· ≠ '\n') = tail at whole ⊢
  subst whole
  match tail with
  | [] => simp [Lexeme.text]
  | feed :: rest =>
    by_cases h : body.getLast? = some '\r'
    · -- the carriage return moves from the body to the terminator
      obtain ⟨before, rfl⟩ := List.getLast?_eq_some_iff.mp h
      simp [Lexeme.text]
    · simp [h, Lexeme.text]

theorem nextBlockComment_append (alone : List Char → Bool) (cs : List Char) :
    (nextBlockComment alone cs).1.text ++ (nextBlockComment alone cs).2 = '/' :: '*' :: cs := by
  have whole := List.take_append_drop (blockExtent 0 cs).length cs
  simp only [nextBlockComment]
  generalize cs.take (blockExtent 0 cs).length = body at whole ⊢
  generalize cs.drop (blockExtent 0 cs).length = rest at whole ⊢
  split <;> simp [cut, Lexeme.text, whole]

theorem nextSlash_append (o : ScanOptions) (s : State) (ctx : Context) (cs : List Char) :
    (nextSlash o s ctx cs).1.text ++ (nextSlash o s ctx cs).2 = '/' :: cs := by
  unfold nextSlash
  split
  · simp [cut, Lexeme.text]
  · split
    · exact nextLineComment_append _
    · exact nextBlockComment_append _ _
    · split
      · exact nextRegex_append _
      · simp [Lexeme.text]

theorem nextCode_append (o : ScanOptions) (s : State) (ctx : Context) (c : Char)
    (cs : List Char) :
    (nextCode o s ctx c cs).1.text ++ (nextCode o s ctx c cs).2 = c :: cs := by
  unfold nextCode
  split
  · exact nextQuoted_append _ _
  · split
    · simp_all [Lexeme.text]
    · split
      · next h => subst h; exact nextSlash_append _ _ _ _
      · simp [Lexeme.text]

theorem nextTemplate_append (c : Char) (cs : List Char) :
    (nextTemplate c cs).1.text ++ (nextTemplate c cs).2 = c :: cs := by
  unfold nextTemplate
  split
  · simp only [cut, Lexeme.text, List.take_append_drop]
  · split
    · simp_all [Lexeme.text]
    · split
      · next h =>
        obtain ⟨rfl, brace⟩ := h
        cases cs with
        | nil => simp at brace
        | cons d ds => simp_all [Lexeme.text]
      · simp [Lexeme.text]

/-- A lexeme and what follows it are the text that was there. -/
theorem next_append (o : ScanOptions) (s : State) (c : Char) (cs : List Char) :
    (next o s c cs).1.text ++ (next o s c cs).2 = c :: cs := by
  unfold next
  split
  · exact nextCode_append _ _ _ _ _
  · exact nextTemplate_append _ _
  · exact nextCode_append _ _ _ _ _

/-! ### No lexeme is empty -/

theorem nextLineComment_text_ne (cs : List Char) : (nextLineComment cs).1.text ≠ [] := by
  unfold nextLineComment
  split
  · simp [Lexeme.text]
  · dsimp only
    split <;> simp [Lexeme.text]

theorem nextSlash_text_ne (o : ScanOptions) (s : State) (ctx : Context) (cs : List Char) :
    (nextSlash o s ctx cs).1.text ≠ [] := by
  unfold nextSlash
  split
  · have := le_lineExtent_length 1 cs
    simp only [cut, Lexeme.text, lineExtent]
    simp
    omega
  · split
    · exact nextLineComment_text_ne _
    · simp only [nextBlockComment]
      split <;> simp [cut, Lexeme.text]
    · split <;> simp [nextRegex, cut, Lexeme.text]

theorem nextCode_text_ne (o : ScanOptions) (s : State) (ctx : Context) (c : Char)
    (cs : List Char) : (nextCode o s ctx c cs).1.text ≠ [] := by
  unfold nextCode
  split
  · simp [nextQuoted, cut, Lexeme.text]
  · split
    · simp [Lexeme.text]
    · split
      · exact nextSlash_text_ne _ _ _ _
      · simp [Lexeme.text]

/-- No lexeme is empty. -/
theorem next_text_ne (o : ScanOptions) (s : State) (c : Char) (cs : List Char) :
    (next o s c cs).1.text ≠ [] := by
  unfold next
  split
  · exact nextCode_text_ne _ _ _ _ _
  · unfold nextTemplate
    split
    · simp [cut, Lexeme.text]
    · split
      · simp [Lexeme.text]
      · split <;> simp [Lexeme.text]
  · exact nextCode_text_ne _ _ _ _ _

end Scan

end Uncomment
