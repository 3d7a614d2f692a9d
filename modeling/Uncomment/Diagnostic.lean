/-
# Diagnostics

Scanning never fails. A literal, template or comment that is left open is closed where
the scan gives up on it, and the defect is recorded with the span it covers. A
diagnostic is such a record together with the position of its start.

Key definitions: `Code`, `Defect`, `Fault`, `Diagnostic`, `Diagnostic.display`, `explain?`.
-/
import Uncomment.Position

namespace Uncomment

/-- How much a diagnostic matters. -/
inductive Severity where
  /-- Something was cut short, and the text around it is a best guess. -/
  | warn
  /-- A guess that usually leaves the text as it is. -/
  | info
deriving DecidableEq, Repr

namespace Severity

/-- The name of a severity in reports. -/
def name : Severity → String
  | warn => "warn"
  | info => "info"

end Severity

/-- The kinds of defect that have a code. -/
inductive Code where
  | openString
  | openTemplate
  | openInterpolation
  | openRegex
  | openComment
deriving DecidableEq, Repr

namespace Code

/-- Every code, in the order of their identifiers. -/
def all : List Code := [openString, openTemplate, openInterpolation, openRegex, openComment]

/-- The identifier of a code. -/
def id : Code → String
  | openString => "DCM1001"
  | openTemplate => "DCM1002"
  | openInterpolation => "DCM1003"
  | openRegex => "DCM1004"
  | openComment => "DCM1005"

/-- Only a regular expression can be a wrong guess about a text that is in order. -/
def severity : Code → Severity
  | openRegex => .info
  | _ => .warn

/-- What a code means, at length. -/
def explanation : Code → String
  | openString =>
    "A quoted string was not closed before the end of its line. The string is treated as " ++
    "ending at the newline and the rest of the file is scanned as code."
  | openTemplate =>
    "A template literal was not closed before the end of the input. Everything after the " ++
    "opening backtick was copied verbatim."
  | openInterpolation =>
    "A `$\x7b` interpolation inside a template literal was never closed by a matching `\x7d`. " ++
    "Comments inside it were still removed."
  | openRegex =>
    "A slash was read as the start of a regular expression literal but no closing slash " ++
    "followed on the same line. The literal is abandoned at the newline; this can also " ++
    "mean a division was misread as a regex."
  | openComment =>
    "A block comment has no closing `*/`. Everything from `/*` to the end of the input " ++
    "was removed."

/-- The code with a given identifier. -/
def ofId? (id : String) : Option Code := all.find? (fun code => code.id == id)

end Code

/-- The explanation of the code with a given identifier, if there is such a code. -/
def explain? (id : String) : Option String := (Code.ofId? id).map Code.explanation

/-- What was left open. -/
inductive Defect where
  | string (quote : Char)
  | template
  | interpolation
  | regex
  | comment
deriving DecidableEq, Repr

namespace Defect

/-- The code of a defect. -/
def code : Defect → Code
  | string _ => .openString
  | template => .openTemplate
  | interpolation => .openInterpolation
  | regex => .openRegex
  | comment => .openComment

/-- A defect in one line. -/
def message : Defect → String
  | string quote => "string literal opened with " ++ quote.toString ++ " is not closed on its line"
  | template => "template literal is never closed"
  | interpolation => "template interpolation is never closed"
  | regex => "regular expression literal is not closed on its line"
  | comment => "block comment is never closed"

end Defect

/-- A defect and the bytes it covers. -/
structure Fault where
  defect : Defect
  span : Span
deriving DecidableEq, Repr

/-- A fault and the position at which it starts. -/
structure Diagnostic extends Fault where
  position : Position
deriving DecidableEq, Repr

/-- The diagnostic of a fault in an indexed text. -/
def Fault.locate (index : LineIndex) (fault : Fault) : Diagnostic where
  toFault := fault
  position := index.position fault.span.start

namespace Diagnostic

/-- The code of a diagnostic. -/
def code (d : Diagnostic) : Code := d.defect.code

/-- How much a diagnostic matters. -/
def severity (d : Diagnostic) : Severity := d.code.severity

/-- A diagnostic in one line, with its place. -/
def display (d : Diagnostic) : String :=
  d.severity.name ++ "[" ++ d.code.id ++ "] " ++ d.position.line.repr ++ ":" ++
    d.position.column.repr ++ ": " ++ d.defect.message

end Diagnostic

end Uncomment
