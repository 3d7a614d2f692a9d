/-
# Commands

`strip` strips files in place, `check` tells whether that would change any, `print` shows the
stripped text of one file, and `explain` says what a code means. A command is run on a
machine and gives what it prints and its exit code.

Key definitions: `ScanArgs.options`, `Invocation.run`.
-/
import Uncomment.Command.Arguments
import Uncomment.Command.Output
import Uncomment.Process
import Uncomment.Report.Json

namespace Uncomment

/-- The options that a command asks for. -/
def ScanArgs.options (a : ScanArgs) (dryRun : Bool) (keepSource : Retention) : Options :=
  let base : Options :=
    { dryRun, keepSource, tidy := !a.noTidy, scan := ⟨!a.keepBraces⟩ }
  if a.extensions.isEmpty then base else base.withExtensions a.extensions

/-- Texts are only kept for diagnostics that will be shown. -/
def Format.retention (format : Format) (quiet verbose : Bool) : Retention :=
  match format with
  | .json => .never
  | .pretty => if quiet then .never else if verbose then .all else .warnings

/-- A document on the standard output. -/
def printDocument (v : Json) : String := v.pretty ++ "\n"

/-- What is printed when a run cannot go on. -/
def Output.ofFailure (context : String) (causes : List String) : Output :=
  { stderr := failureText context causes, exit := 1 }

namespace Command

/-- The report of `strip`. -/
def stripReport (format : Format) (path : String) (o : Options) (quiet verbose : Bool)
    (b : Batch) : Output :=
  let exit := if 0 < b.failed then 1 else 0
  match format with
  | .json =>
    { stdout := printDocument (.object
        [("files", .arr (b.files.map FileReport.toJson)), ("modified", .num b.modified),
         ("failed", .num b.failed), ("bytes_removed", .num b.bytesRemoved),
         ("dry_run", .bool o.dryRun), ("stats", b.stats.toJson)])
      exit }
  | .pretty =>
    if b.files.isEmpty then { stderr := "warning: no matching files under " ++ path ++ "\n" }
    else
      let shown := if quiet then [] else batchDiagnostics verbose b
      { stderr := unlines (shown ++ fileLines path quiet b ++ [stripSummary b o.dryRun]), exit }

/-- The paths of the files that would change. -/
def wouldChange (b : Batch) : List String :=
  (b.files.filter FileReport.isModified).map FileReport.path

/-- The report of `check`. -/
def checkReport (format : Format) (path : String) (quiet verbose : Bool) (b : Batch) : Output :=
  let changed := wouldChange b
  let clean := changed.isEmpty && b.failed == 0
  let exit := if clean then 0 else 1
  match format with
  | .json =>
    { stdout := printDocument (.object
        [("ok", .bool clean), ("checked", .num b.files.length),
         ("would_change", .arr (changed.map .str)), ("bytes_removed", .num b.bytesRemoved)])
      exit }
  | .pretty =>
    let shown :=
      if quiet then []
      else batchDiagnostics verbose b ++ changed.map ("would change: " ++ displayName path ·)
    let count := if clean then b.files.length else changed.length
    let verdict := if clean then " checked, already clean" else " would change"
    let summary := count.repr ++ " " ++ plural count "file" ++ verdict
    { stderr := unlines (shown ++ fileLines path true b ++ [summary]), exit }

/-- The report of `print`. -/
def printReport (format : Format) (name : String) (verbose : Bool) (s : Stripped) : Output :=
  match format with
  | .json =>
    { stdout := printDocument (.object
        [("file", .str name), ("text", .str s.text), ("stats", s.stats.toJson),
         ("diagnostics", diagnosticsToJson s.diagnostics)]) }
  | .pretty =>
    let shown := visible verbose s.diagnostics
    { stdout := s.text
      stderr := unlines (shown.map diagnosticLine ++ diagnosticSummary shown) }

/-- The report of `explain`. -/
def explainReport (format : Format) (id : String) : Output :=
  match format with
  | .json => { stdout := printDocument (.object
      [("id", .str id), ("explanation", .ofText? (explain? id))]) }
  | .pretty =>
    match explain? id with
    | some text => { stdout := Color.cyan.paint id ++ ": " ++ text ++ "\n" }
    | none => { stdout := id ++ ": (no explanation available)\n" }

/-- Whether a command reads the standard input. -/
def readsInput : Command → Bool
  | print "-" _ => true
  | _ => false

variable {m : Type → Type} [Monad m] [Host m]

/-- Processes a path and reports on it. -/
def onBatch (path : String) (o : Options) (report : Batch → Output) : m Output := do
  Host.note (.starting path o)
  match ← processPath o path with
  | .error failure => return .ofFailure ("cannot process " ++ path) failure.chain
  | .ok batch => return report batch

/-- The text in some bytes, or in the lack of them the reason. -/
def decode : Except IoError ByteArray → Except IoError String
  | .error e => .error e
  | .ok bytes =>
    match String.fromUTF8? bytes with
    | none => .error .notUtf8
    | some text => .ok text

/-- Runs a command, with `input` on the standard input. -/
def run (format : Format) (verbose : Bool) (input : ByteArray) : Command → m Output
  | strip path dryRun quiet scan =>
    let o := scan.options dryRun (format.retention quiet verbose)
    onBatch path o (stripReport format path o quiet verbose)
  | check path quiet scan =>
    let o := scan.options true (format.retention quiet verbose)
    onBatch path o (checkReport format path quiet verbose)
  | print file scan => do
    let stdin := file == "-"
    let bytes ← if stdin then pure (.ok input) else Host.read file
    match decode bytes with
    | .error e =>
      return .ofFailure ("failed to read " ++ (if stdin then "stdin" else file)) [e.message]
    | .ok source =>
      let name := if stdin then "<stdin>" else file
      return printReport format name verbose ((scan.options true .warnings).clean source)
  | explain id => return explainReport format id

end Command

/-- The name and version of the program. -/
def versionLine : String := "decomment 0.1.0"

/-- Runs what the command line asks for. The format is `usual` unless one is asked for. -/
def Invocation.run {m : Type → Type} [Monad m] [Host m] (usual : Format) (input : ByteArray)
    (i : Invocation) : m Output :=
  i.command.run (i.format.getD usual) i.verbose input

end Uncomment
