/-
# Sets of code points

A Unicode property is given as a list of ranges of code points, both ends included and
in increasing order, so that a search can stop at the first range above the code point
it looks for.

Key definitions: `Ranges`, `inRanges`.
-/
namespace Uncomment.Text

/-- Ranges of code points, both ends included, in increasing order. -/
abbrev Ranges := List (Nat × Nat)

/-- Whether a code point lies in one of the ranges. -/
def inRangesFrom (n : Nat) : Ranges → Bool
  | [] => false
  | (lo, hi) :: rs => if n < lo then false else if n ≤ hi then true else inRangesFrom n rs

/-- Whether a character lies in one of the ranges. -/
def inRanges (rs : Ranges) (c : Char) : Bool := inRangesFrom c.toNat rs

end Uncomment.Text
