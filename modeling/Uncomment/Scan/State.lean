/-
# The state of a scan

The state of a scan is the text still to be read, what has been written so far, and the
memory that decides how the next character is read: the tracker for slashes, and the
stack of templates and interpolations that are open.

The text written so far is kept with its last character first, because a comment alone
in a pair of braces takes the opening brace, which is already written, away with it.

Key definitions: `ScanOptions`, `Scan.Frame`, `Scan.State`.
-/
import Uncomment.Diagnostic
import Uncomment.Scan.Tracker
import Uncomment.Stats

namespace Uncomment

/-- How a text is to be stripped. -/
structure ScanOptions where
  /-- Whether the braces around a comment that stands alone in them are removed with it. -/
  jsxComments : Bool := true
deriving DecidableEq, Repr

namespace Scan

/-- Where a piece of code stands. Directives and comments in braces of their own are only
recognised at top level. -/
inductive Context where
  | topLevel
  | interpolation
deriving DecidableEq, Repr

/-- A template or interpolation that is open, with the offset at which it starts. -/
inductive Frame where
  | template (start : Nat)
  /-- An interpolation, and the number of braces open in it, its own included. -/
  | interpolation (start depth : Nat)
deriving DecidableEq, Repr

/-- The state of a scan. -/
structure State where
  /-- The text still to be read. -/
  rest : List Char
  /-- The number of bytes read. -/
  pos : Nat := 0
  /-- The text written, last character first. -/
  out : List Char := []
  tracker : Tracker := {}
  /-- The templates and interpolations that are open, innermost first. -/
  frames : List Frame := []
  stats : Stats := {}
  /-- The faults found, last one first. -/
  faults : List Fault := []
deriving DecidableEq, Repr

end Scan

end Uncomment
