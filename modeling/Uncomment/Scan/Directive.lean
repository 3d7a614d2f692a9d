/-
# Directives

A line that starts with three slashes is a directive to the compiler, and no comment, if
the rest of it holds a tag that names a reference or a module.

Key definitions: `isDirective`.
-/
import Uncomment.Text.Blank

namespace Uncomment

open Text

/-- The words that make a line of three slashes a directive. -/
def directiveWords : List String := ["reference", "amd-module", "amd-dependency"]

/-- Whether a text holds another one as a block of neighbours. -/
def holds (part : List Char) : List Char → Bool
  | [] => part.isEmpty
  | c :: cs => part.isPrefixOf (c :: cs) || holds part cs

/-- Whether a text that starts at a slash starts with a directive. -/
def isDirective : List Char → Bool
  | '/' :: '/' :: '/' :: cs =>
    let line := trim (cs.takeWhile (· ≠ '\n'))
    line.head? == some '<' && directiveWords.any (fun w => holds w.toList line)
  | _ => false

end Uncomment
