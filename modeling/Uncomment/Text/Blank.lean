/-
# White space

Two notions of white space meet in this library. A *blank* is any character with the
Unicode property `White_Space`; a *space or tab* is one of the two that can be deleted
within a line. Trimming takes such characters off the ends of a text.

Key definitions: `isBlank`, `isSpaceOrTab`, `trimStart`, `trimEnd`, `trim`.
-/
import Uncomment.Text.Ranges

namespace Uncomment.Text

/-- The code points with the property `White_Space`. -/
def whiteSpace : Ranges :=
  [(0x9, 0xD), (0x20, 0x20), (0x85, 0x85), (0xA0, 0xA0), (0x1680, 0x1680), (0x2000, 0x200A),
   (0x2028, 0x2029), (0x202F, 0x202F), (0x205F, 0x205F), (0x3000, 0x3000)]

/-- Whether a character is white space. -/
def isBlank (c : Char) : Bool := inRanges whiteSpace c

/-- Whether a character is a space or a tab. -/
def isSpaceOrTab (c : Char) : Bool := c == ' ' || c == '\t'

/-- A text without the leading characters of a class. -/
def trimStart (p : Char → Bool) (cs : List Char) : List Char := cs.dropWhile p

/-- A text without the trailing characters of a class. -/
def trimEnd (p : Char → Bool) (cs : List Char) : List Char := (cs.reverse.dropWhile p).reverse

/-- A text without the blanks at its two ends. -/
def trim (cs : List Char) : List Char := trimEnd isBlank (trimStart isBlank cs)

/-- Whether a text holds nothing but blanks. -/
def allBlank (cs : List Char) : Bool := cs.all isBlank

end Uncomment.Text
