/-
# Where literals and comments end

Each function here walks over the text after an opening delimiter and says how many of
its characters belong to the literal or comment, and whether a closing delimiter was
found. The count includes the closing delimiter. A backslash takes the character after
it along, unless it is the last character of the text.

Key definitions: `Extent`, `quotedExtent`, `regexExtent`, `blockExtent`, `lineExtent`.
Key theorems: `le_lineExtent_length`.
-/
import Uncomment.Text.Word

namespace Uncomment

open Text

/-- How many characters belong to a literal or comment, and whether it is closed. -/
structure Extent where
  length : Nat
  closed : Bool
deriving DecidableEq, Repr

/-- The extent of a quoted string, `n` characters of which are passed. The quote closes it;
a line feed ends it early and is part of it. -/
def quotedExtent (quote : Char) (n : Nat) : List Char → Extent
  | [] => ⟨n, false⟩
  | '\\' :: _ :: cs => quotedExtent quote (n + 2) cs
  | c :: cs =>
    if c = quote then ⟨n + 1, true⟩
    else if c = '\n' then ⟨n + 1, false⟩
    else quotedExtent quote (n + 1) cs

/-- The extent of a regular expression with its flags, `n` characters of which are passed. A
slash outside a character class closes it; a line feed ends it early and is not part of it. -/
def regexExtent (inClass : Bool) (n : Nat) : List Char → Extent
  | [] => ⟨n, false⟩
  | '\\' :: _ :: cs => regexExtent inClass (n + 2) cs
  | c :: cs =>
    if c = '[' ∧ !inClass then regexExtent true (n + 1) cs
    else if c = ']' ∧ inClass then regexExtent false (n + 1) cs
    else if c = '/' ∧ !inClass then ⟨n + 1 + (cs.takeWhile isAlphabetic).length, true⟩
    else if c = '\n' then ⟨n, false⟩
    else regexExtent inClass (n + 1) cs

/-- The extent of a block comment, `n` characters of which are passed. -/
def blockExtent (n : Nat) : List Char → Extent
  | [] => ⟨n, false⟩
  | '*' :: '/' :: _ => ⟨n + 2, true⟩
  | _ :: cs => blockExtent (n + 1) cs

/-- The extent of a line with its line feed, `n` characters of which are passed. -/
def lineExtent (n : Nat) : List Char → Extent
  | [] => ⟨n, false⟩
  | c :: cs => if c = '\n' then ⟨n + 1, true⟩ else lineExtent (n + 1) cs

theorem le_lineExtent_length : ∀ (n : Nat) (cs : List Char), n ≤ (lineExtent n cs).length
  | _, [] => Nat.le_refl _
  | n, c :: cs => by
    unfold lineExtent
    split
    · exact Nat.le_succ n
    · exact Nat.le_of_succ_le (le_lineExtent_length (n + 1) cs)

end Uncomment
