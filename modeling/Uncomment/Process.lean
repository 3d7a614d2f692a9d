/-
# Processing files

A file is read, cleaned and, if its text changed, replaced. The new text goes into a draft
beside the file, which takes the place of the file only when it is complete; a draft that
cannot be completed is removed. A failure concerns one file and never stops the others: it
becomes part of the report.

Key definitions: `collect`, `replaceFile`, `processFile`, `processFiles`, `processPath`.
-/
import Uncomment.Disk.Host

namespace Uncomment

variable {m : Type → Type} [Monad m] [Host m]

/-- The files that a target stands for, in order: a file for itself, whatever its name, and a
folder for the files to process below it. -/
def collect (o : Options) (target : String) : m (Except Failure (List String)) := do
  match ← Host.survey (fun name => !o.skips name) target with
  | .error .noEntry => return .error (.notFound target)
  | .error e => return .error (.access target e)
  | .ok (.folder entries) =>
    let files := Path.sort (Listing.entrySources o target entries)
    Host.note (.collected target files.length)
    return .ok files
  | .ok _ => return .ok [target]

/-- Completes a draft with a text and puts it in the place of its file. -/
def completeDraft (draft : Host.Draft m) (text : String) : m (Except IoError Unit) :=
  ExceptT.run do
    ExceptT.mk (Host.fill draft text)
    ExceptT.mk (Host.flush draft)
    ExceptT.mk (Host.protect draft)
    ExceptT.mk (Host.commit draft)

/-- Replaces the text of the file that a path leads to, or leaves everything as it was. -/
def replaceFile (path text : String) : m (Except IoError Unit) := do
  match ← Host.draft path with
  | .error e => return .error e
  | .ok draft =>
    match ← completeDraft draft text with
    | .ok () => return .ok ()
    | .error e =>
      Host.discard draft
      return .error e

/-- Stores a text that changed, unless the files are to stay as they are. -/
def saveChange (o : Options) (path source text : String) : m Outcome := do
  let bytesRemoved := source.utf8ByteSize - text.utf8ByteSize
  let stored ← if o.dryRun then pure (.ok ()) else replaceFile path text
  match stored with
  | .error e =>
    Host.note (.writeFailed path e)
    return .failed (.write path e)
  | .ok () =>
    Host.note (.stripped path bytesRemoved (!o.dryRun))
    return .modified bytesRemoved (!o.dryRun)

/-- Processes a file that holds the text `source`. -/
def processText (o : Options) (path source : String) : m FileReport := do
  let cleaned := o.clean source
  let outcome ←
    if cleaned.text = source then pure .unchanged else saveChange o path source cleaned.text
  match outcome with
  | .failed _ => return { path, outcome }
  | _ =>
    cleaned.diagnostics.forM fun d => Host.note (.diagnosed path d)
    return {
      path, outcome
      stats := cleaned.stats
      diagnostics := cleaned.diagnostics
      source :=
        if o.keepSource.wants (cleaned.diagnostics.map (·.severity)) then some source else none }

/-- Processes the file that a path leads to. -/
def processFile (o : Options) (path : String) : m FileReport := do
  match ← Host.read path with
  | .error e =>
    Host.note (.readFailed path e)
    return { path, outcome := .failed (.read path e) }
  | .ok bytes =>
    match String.fromUTF8? bytes with
    | none =>
      Host.note (.notUtf8 path)
      return { path, outcome := .skipped }
    | some source => processText o path source

/-- Processes some files, in order. -/
def processFiles (o : Options) (paths : List String) : m (List FileReport) :=
  paths.mapM (processFile o)

/-- Processes every file that a target stands for. -/
def processPath (o : Options) (target : String) : m (Except Failure Batch) := do
  match ← collect o target with
  | .error failure => return .error failure
  | .ok paths =>
    let batch : Batch := ⟨← processFiles o paths⟩
    Host.note (.finished target batch o.dryRun)
    return .ok batch

end Uncomment
