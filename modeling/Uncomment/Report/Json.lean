/-
# Reports as documents

The form in which reports are handed to other programs. A field that says nothing, such
as an empty list of diagnostics of a file, is left out.

Key definitions: `Stats.toJson`, `Diagnostic.toJson`, `FileReport.toJson`.
-/
import Uncomment.Json
import Uncomment.Report

namespace Uncomment

/-- The counts of a scan as a document. -/
def Stats.toJson (s : Stats) : Json := .object
  [("line_comments", .num s.lineComments), ("block_comments", .num s.blockComments),
   ("jsx_comments", .num s.jsxComments), ("directives", .num s.directives)]

/-- A span as a document. -/
def Span.toJson (s : Span) : Json := .object [("start", .num s.start), ("end", .num s.stop)]

/-- A diagnostic as a document. -/
def Diagnostic.toJson (d : Diagnostic) : Json := .object
  [("id", .str d.code.id), ("severity", .str d.severity.name), ("message", .str d.defect.message),
   ("span", d.span.toJson), ("line", .num d.position.line), ("column", .num d.position.column)]

/-- Several diagnostics as a document. -/
def diagnosticsToJson (ds : List Diagnostic) : Json := .arr (ds.map Diagnostic.toJson)

/-- The fields of an outcome. -/
def Outcome.fields : Outcome → List (String × Json)
  | modified bytes written =>
    [("status", .str "modified"), ("bytes_removed", .num bytes), ("written", .bool written)]
  | unchanged => [("status", .str "unchanged")]
  | skipped => [("status", .str "skipped"), ("reason", .str "not_utf8")]
  | failed failure => [("status", .str "failed"), ("error", .str failure.describe)]

/-- The fields of the report on a file. The text that is kept is not one of them. -/
def FileReport.fields (r : FileReport) : List (String × Json) :=
  [("path", .str r.path)] ++ r.outcome.fields ++ [("stats", r.stats.toJson)] ++
    (if r.diagnostics.isEmpty then [] else [("diagnostics", diagnosticsToJson r.diagnostics)])

/-- The report on a file as a document. -/
def FileReport.toJson (r : FileReport) : Json := .object r.fields

end Uncomment
