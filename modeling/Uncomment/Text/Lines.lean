/-
# Lines

A text is a list of lines, cut at each line feed. The last line may be empty.

Key definitions: `splitLines`, `joinLines`, `hasCrlf`.
-/
import Uncomment.Text.Split

namespace Uncomment.Text

/-- The lines of a text, without their line feeds. -/
def splitLines (cs : List Char) : List (List Char) := splitOn '\n' cs

/-- The text made of some lines, with a line feed between any two. -/
def joinLines (ls : List (List Char)) : List Char := joinWith '\n' ls

/-- Whether a carriage return stands directly before a line feed somewhere. -/
def hasCrlf : List Char → Bool
  | [] => false
  | [_] => false
  | c :: d :: cs => (c == '\r' && d == '\n') || hasCrlf (d :: cs)

end Uncomment.Text
