/-
# Reports

What became of each file, and what that adds up to for a batch of files.

Key definitions: `Outcome`, `FileReport`, `Batch`.
-/
import Uncomment.Diagnostic
import Uncomment.Failure
import Uncomment.Stats

namespace Uncomment

/-- What became of a file. -/
inductive Outcome where
  /-- The text changed; `written` is false if the file was to stay as it is. -/
  | modified (bytesRemoved : Nat) (written : Bool)
  | unchanged
  /-- The file does not hold a text in UTF-8. -/
  | skipped
  | failed (failure : Failure)
deriving DecidableEq, Repr

/-- The report on one file. -/
structure FileReport where
  path : String
  outcome : Outcome
  stats : Stats := {}
  diagnostics : List Diagnostic := []
  /-- The text of the file before, if it is kept. -/
  source : Option String := none
deriving DecidableEq, Repr

namespace FileReport

/-- Whether the file changed, or would have. -/
def isModified (r : FileReport) : Bool :=
  match r.outcome with
  | .modified _ _ => true
  | _ => false

/-- Whether the file could not be read or written. -/
def isFailed (r : FileReport) : Bool :=
  match r.outcome with
  | .failed _ => true
  | _ => false

/-- The number of bytes saved. -/
def bytesRemoved (r : FileReport) : Nat :=
  match r.outcome with
  | .modified bytes _ => bytes
  | _ => 0

end FileReport

/-- The reports on the files of a run, in their order. -/
structure Batch where
  files : List FileReport := []
deriving DecidableEq, Repr

namespace Batch

/-- The number of files that changed, or would have. -/
def modified (b : Batch) : Nat := b.files.countP FileReport.isModified

/-- The number of files that failed. -/
def failed (b : Batch) : Nat := b.files.countP FileReport.isFailed

/-- The number of bytes saved in all. -/
def bytesRemoved (b : Batch) : Nat := b.files.foldr (fun r n => r.bytesRemoved + n) 0

/-- The counts of all files together. -/
def stats (b : Batch) : Stats := Stats.total (b.files.map FileReport.stats)

end Batch

end Uncomment
