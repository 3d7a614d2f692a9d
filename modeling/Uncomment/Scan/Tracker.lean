/-
# What came before a slash

Whether a slash divides or opens a regular expression depends on the code before it.
The tracker remembers the last character that is neither a word character nor blank, and
the word characters since. A word survives blanks, so `return /x/` is seen to hold a
regular expression. No keyword is longer than ten bytes, so a longer word need not be
remembered in full.

Key definitions: `Tracker.update`, `Tracker.canStartRegex`, `opensRegex`.
-/
import Uncomment.Text.Blank
import Uncomment.Text.ByteSize
import Uncomment.Text.Word

namespace Uncomment

open Text

/-- The last significant character, and the word after it. -/
structure Tracker where
  last : Char := '\n'
  word : List Char := []
deriving DecidableEq, Repr

namespace Tracker

/-- The size in bytes of the longest keyword. -/
def wordLimit : Nat := 10

/-- The tracker after one more character of ordinary code. -/
def update (t : Tracker) (c : Char) : Tracker :=
  if isWord c then
    if byteSize t.word ≤ wordLimit then { t with word := t.word ++ [c] } else t
  else if isBlank c then t
  else ⟨c, []⟩

/-- The tracker after a literal, comment or directive that counts as the character `c`. -/
def resetTo (c : Char) : Tracker := ⟨c, []⟩

/-- The tracker with its word forgotten. -/
def clearWord (t : Tracker) : Tracker := { t with word := [] }

/-- The characters after which a slash opens a regular expression. -/
def regexSigns : List Char :=
  ['(', ')', '[', ']', '{', '}', ',', ';', ':', '=', '!', '&', '|', '?', '~', '^', '<', '>', '+',
   '-', '*', '%', '\n', '\r']

/-- The keywords after which a slash opens a regular expression. -/
def regexWords : List String :=
  ["return", "case", "throw", "in", "instanceof", "typeof", "void", "delete", "new", "else", "do",
   "yield", "await"]

/-- Whether a slash can open a regular expression here. -/
def canStartRegex (t : Tracker) : Bool :=
  regexSigns.contains t.last || regexWords.any (fun w => w.toList == t.word)

end Tracker

/-- Whether what follows a slash can be the body of a regular expression: the signs of a
comment or an operator, a space, a tab, a line feed and the end of the text cannot. -/
def opensRegex : List Char → Bool
  | [] => false
  | c :: _ => !(['=', '/', '*', ' ', '\t', '\n'].contains c)

end Uncomment
