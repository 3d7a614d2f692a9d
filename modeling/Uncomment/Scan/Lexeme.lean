/-
# Lexemes

A scan cuts a text into typed pieces that follow one another without a gap. Each lexeme
knows the characters it was read from; what it leaves in the stripped text and what it
does to the state of the scan is decided by its kind.

Key definitions: `Lexeme`, `Lexeme.text`.
-/
namespace Uncomment

/-- The mark that opens and closes a template. -/
def backtick : Char := '\x60'

/-- The two marks that open and close a string. -/
def isQuote (c : Char) : Bool := c == '\x22' || c == '\x27'

theorem ne_of_isQuote {quote c : Char} (hquote : isQuote quote = true) (hc : isQuote c = false) :
    c ≠ quote := by
  rintro rfl
  simp [hc] at hquote

/-- A typed piece of a text. -/
inductive Lexeme where
  /-- One character of ordinary code. -/
  | code (c : Char)
  /-- A string: its opening quote and what follows up to its end. -/
  | quoted (quote : Char) (body : List Char) (closed : Bool)
  /-- A regular expression: what follows its opening slash, flags included. -/
  | regex (body : List Char) (closed : Bool)
  /-- The mark that opens a template. -/
  | openTemplate
  /-- A character of a template, or two if the first is a backslash. -/
  | templateText (chars : List Char)
  /-- The mark that closes a template. -/
  | closeTemplate
  /-- The dollar sign and brace that open an interpolation. -/
  | openInterpolation
  /-- A directive with the line feed that ends it. -/
  | directive (chars : List Char)
  /-- A line comment: what follows its slashes, and the line terminator that is kept. -/
  | lineComment (body ending : List Char)
  /-- A block comment: what follows its opening delimiter, the closing one included. -/
  | blockComment (body : List Char) (closed : Bool)
  /-- A block comment alone in a pair of braces: what follows its opening delimiter, and what
  goes with it up to the closing brace. -/
  | jsxComment (body tail : List Char)
deriving DecidableEq, Repr

namespace Lexeme

/-- The characters that a lexeme was read from. -/
def text : Lexeme → List Char
  | code c => [c]
  | quoted quote body _ => quote :: body
  | regex body _ => '/' :: body
  | openTemplate => [backtick]
  | templateText chars => chars
  | closeTemplate => [backtick]
  | openInterpolation => ['$', '{']
  | directive chars => chars
  | lineComment body ending => '/' :: '/' :: body ++ ending
  | blockComment body _ => '/' :: '*' :: body
  | jsxComment body tail => '/' :: '*' :: body ++ tail

end Lexeme

end Uncomment
