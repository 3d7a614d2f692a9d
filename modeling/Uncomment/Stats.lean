/-
# Counts

What a scan removed and kept, counted by kind. Counts of several scans are added field
by field.

Key definitions: `Stats`, `Stats.removed`.
-/
namespace Uncomment

/-- The number of comments removed, by kind, and of directives kept. -/
structure Stats where
  lineComments : Nat := 0
  blockComments : Nat := 0
  jsxComments : Nat := 0
  directives : Nat := 0
deriving DecidableEq, Repr

namespace Stats

/-- The number of comments removed. -/
def removed (s : Stats) : Nat := s.lineComments + s.blockComments + s.jsxComments

/-- The counts of two scans together. -/
def add (s t : Stats) : Stats where
  lineComments := s.lineComments + t.lineComments
  blockComments := s.blockComments + t.blockComments
  jsxComments := s.jsxComments + t.jsxComments
  directives := s.directives + t.directives

instance : Add Stats := ⟨add⟩

/-- The counts of many scans together. -/
def total (stats : List Stats) : Stats := stats.foldl (· + ·) {}

end Stats

end Uncomment
