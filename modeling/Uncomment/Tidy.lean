/-
# Tidying a text

Taking comments out of a text leaves blank lines and trailing spaces behind. Tidying
keeps at most two blank lines in a row, takes spaces and tabs off the end of each line,
and ends the text with exactly one line terminator. A line keeps its own carriage
return, and the final terminator has one if any line of the text had. A text of blanks
becomes empty.

Key definitions: `keepLines`, `tidy`.
-/
import Uncomment.Text.Blank
import Uncomment.Text.Lines

namespace Uncomment

open Text

/-- The largest number of blank lines kept in a row. -/
def maxBlankLines : Nat := 2

/-- A line without the carriage return that may end it, and that carriage return. -/
def splitReturn (line : List Char) : List Char × List Char :=
  if line.getLast? = some '\r' then (line.dropLast, ['\r']) else (line, [])

/-- The lines that stay after `run` blank lines, each without trailing spaces and tabs. -/
def keepLines (run : Nat) : List (List Char) → List (List Char)
  | [] => []
  | line :: ls =>
    let (body, ending) := splitReturn line
    if allBlank body then
      if run < maxBlankLines then ending :: keepLines (run + 1) ls else keepLines (run + 1) ls
    else (trimEnd isSpaceOrTab body ++ ending) :: keepLines 0 ls

/-- The terminator that ends a tidied text. -/
def finalTerminator (cs : List Char) : List Char := if hasCrlf cs then ['\r', '\n'] else ['\n']

/-- The tidied form of a list of characters. -/
def tidyChars (cs : List Char) : List Char :=
  let body := trimEnd isBlank (joinLines (keepLines 0 (splitLines cs)))
  if body.isEmpty then [] else body ++ finalTerminator cs

/-- The tidied form of a text. -/
def tidy (text : String) : String := String.ofList (tidyChars text.toList)

end Uncomment
