/-
# What a command prints

Reports for people go to the error stream, in colour, so that the standard output only
carries texts and documents. A run that cannot go on prints the failure and its causes.

Key definitions: `Output`, `fileLines`, `stripSummary`, `diagnosticSummary`, `failureText`.
-/
import Uncomment.Report
import Uncomment.Path
import Uncomment.Text.Lines

namespace Uncomment

/-- What a command printed, and its exit code. -/
structure Output where
  stdout : String := ""
  stderr : String := ""
  exit : Nat := 0
deriving DecidableEq, Repr

/-- Lines of text, each ended by a line feed. -/
def unlines (lines : List String) : String := String.join (lines.map (· ++ "\n"))

/-! ### Colours -/

/-- A colour of the terminal. -/
inductive Color where
  | red
  | green
  | yellow
  | blue
  | cyan
  | lavender

/-- The code that switches to a colour. -/
def Color.code : Color → String
  | red => "31"
  | green => "32"
  | yellow => "33"
  | blue => "34"
  | cyan => "36"
  | lavender => "38;5;147"

/-- A text in a colour. -/
def Color.paint (c : Color) (text : String) : String :=
  "\x1b[" ++ c.code ++ "m" ++ text ++ "\x1b[0m"

/-! ### Diagnostics -/

/-- The diagnostics shown to people: informational ones only if asked for. -/
def visible (verbose : Bool) (ds : List Diagnostic) : List Diagnostic :=
  ds.filter fun d => verbose || d.severity ≠ .info

/-- The line that heads a diagnostic. -/
def diagnosticLine (d : Diagnostic) : String :=
  let head := match d.severity with
    | .warn => Color.yellow.paint ("[" ++ d.code.id ++ "] Warning:")
    | .info => Color.lavender.paint ("[" ++ d.code.id ++ "] Advice:")
  head ++ " " ++ d.defect.message

/-- The visible diagnostics of the files that kept their text. -/
def batchDiagnostics (verbose : Bool) (b : Batch) : List String :=
  b.files.flatMap fun r =>
    if r.source.isSome then (visible verbose r.diagnostics).map diagnosticLine else []

/-- A noun, in the plural unless there is one. -/
def plural (count : Nat) (noun : String) : String := if count = 1 then noun else noun ++ "s"

/-- The number of warnings and of other diagnostics, if there are any. -/
def diagnosticSummary (ds : List Diagnostic) : List String :=
  let warnings := ds.countP fun d => d.severity ≠ .info
  let infos := ds.length - warnings
  let parts :=
    (if 0 < warnings then [Color.yellow.paint (warnings.repr ++ " " ++ plural warnings "warning")]
     else []) ++
    (if 0 < infos then [Color.blue.paint (infos.repr ++ " info")] else [])
  if parts.isEmpty then [] else [", ".intercalate parts]

/-! ### Files -/

/-- The name of a file in the report of a run on `root`. -/
def displayName (root path : String) : String := (Path.below? root path).getD path

/-- The line on a file. A quiet run only tells of failures. -/
def fileLine? (root : String) (quiet : Bool) (r : FileReport) : Option String :=
  let name := displayName root r.path
  match r.outcome with
  | .modified bytes written =>
    let verb := if written then "stripped" else "would strip"
    if quiet then none
    else some (Color.green.paint verb ++ ": " ++ name ++ " (-" ++ bytes.repr ++ " bytes)")
  | .skipped =>
    if quiet then none else some (Color.yellow.paint "skipped" ++ ": " ++ name ++ " (not UTF-8)")
  | .failed failure => some (Color.red.paint "error" ++ ": " ++ failure.describe)
  | .unchanged => none

/-- The lines on the files of a batch. -/
def fileLines (root : String) (quiet : Bool) (b : Batch) : List String :=
  b.files.filterMap (fileLine? root quiet)

/-- The last line of a run that strips files. -/
def stripSummary (b : Batch) (dryRun : Bool) : String :=
  b.modified.repr ++ " " ++ plural b.modified "file" ++ " modified, " ++ b.bytesRemoved.repr ++
    " bytes removed" ++ (if dryRun then " (dry run)" else "") ++
    (if 0 < b.failed then ", " ++ b.failed.repr ++ " failed" else "")

/-! ### Failures -/

/-- A cause below the failure, with its number if there are several. Further lines of it are
indented alike. -/
def causeText (number : Option Nat) (cause : String) : String :=
  let (first, further) := match number with
    | none => ("    ", "    ")
    | some n =>
      (String.ofList (List.replicate (5 - n.repr.length) ' ') ++ n.repr ++ ": ", "       ")
  let lines := (Text.splitLines cause.toList).map String.ofList
  first ++ ("\n" ++ further).intercalate lines

/-- A failure that ends a run, and its causes. -/
def failureText (context : String) (causes : List String) : String :=
  let numbered := match causes with
    | [cause] => [causeText none cause]
    | causes => causes.zipIdx.map fun (cause, n) => causeText (some n) cause
  "Error: " ++ context ++ "\n\nCaused by:\n" ++ unlines numbered

end Uncomment
