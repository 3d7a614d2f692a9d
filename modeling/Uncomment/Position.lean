/-
# Places in a text

A span is a range of byte offsets that is never inverted. A position is a line and a
column, both counted from one, the column in bytes. The line index of a text lists the
offset at which each line starts, and finds the position of an offset by bisection.

Key definitions: `Span.between`, `LineIndex.ofChars`, `LineIndex.position`.
-/
import Uncomment.Text.ByteSize

namespace Uncomment

open Text

/-- The bytes from `start` up to, and not including, `stop`. -/
structure Span where
  start : Nat
  stop : Nat
  start_le_stop : start ≤ stop := by omega
deriving DecidableEq, Repr

/-- The span from one offset to another, widened so that it is not inverted. -/
def Span.between (start stop : Nat) : Span where
  start
  stop := max stop start

/-- A line and a column, both counted from one. -/
structure Position where
  line : Nat
  column : Nat
deriving DecidableEq, Repr

/-- The offset at which each line of a text starts. -/
structure LineIndex where
  starts : Array Nat

namespace LineIndex

/-- The offsets just after the line feeds of a text that begins at offset `pos`. -/
def startsAfter (pos : Nat) : List Char → List Nat
  | [] => []
  | c :: cs =>
    let next := pos + c.utf8Size
    if c = '\n' then next :: startsAfter next cs else startsAfter next cs

/-- The line index of a text. -/
def ofChars (cs : List Char) : LineIndex := ⟨(0 :: startsAfter 0 cs).toArray⟩

/-- Between `lo` and `hi`, the first place of an increasing array that holds more than `x`. -/
def bisect (a : Array Nat) (x lo hi : Nat) : Nat :=
  if lo < hi then
    let mid := (lo + hi) / 2
    if a.getD mid 0 ≤ x then bisect a x (mid + 1) hi else bisect a x lo mid
  else lo
termination_by hi - lo

/-- The position of an offset. An offset past the end is on the last line. -/
def position (index : LineIndex) (offset : Nat) : Position :=
  let line := max (bisect index.starts offset 0 index.starts.size) 1
  ⟨line, offset - index.starts.getD (line - 1) 0 + 1⟩

end LineIndex

end Uncomment
