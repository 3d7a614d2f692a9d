/-
# Options

Which files are processed, and what is done with each. Extensions are kept in lower case
with one leading dot, so that any spelling of them is accepted; sets are kept in
increasing order without repetition.

The names that are matched here are texts. An extension that is not UTF-8 is never one that
is asked for, and a folder whose name is not UTF-8 is never left alone; neither is modelled.

Key definitions: `Options`, `normalizeExtension`, `Options.withExtensions`,
`Options.matchesExtension`, `Options.skips`, `Options.clean`, `Retention.wants`.
-/
import Uncomment.Path
import Uncomment.Strip
import Uncomment.Text.Lowercase
import Uncomment.Tidy

namespace Uncomment

open Text

/-- When a report keeps the text of a file. -/
inductive Retention where
  | never
  /-- When a diagnostic is more than informational. -/
  | warnings
  /-- When there is any diagnostic. -/
  | all
deriving DecidableEq, Repr

namespace Retention

/-- Whether diagnostics of these severities are a reason to keep the text. -/
def wants (r : Retention) (severities : List Severity) : Bool :=
  match r with
  | never => false
  | warnings => severities.any (· ≠ .info)
  | all => !severities.isEmpty

end Retention

/-- A set of texts: in increasing order, each one once. -/
def textSet (texts : List String) : List String :=
  texts.eraseDups.mergeSort (fun a b => decide (a ≤ b))

/-- The extensions processed unless others are asked for. -/
def defaultExtensions : List String := [".js", ".jsx", ".ts", ".tsx", ".mjs", ".cjs"]

/-- The folders left alone unless others are asked for. -/
def defaultSkipDirs : List String :=
  ["node_modules", ".git", "dist", "build", ".next", "__pycache__", ".vscode", ".idea", "coverage"]

/-- What to process, and how. -/
structure Options where
  /-- The extensions of the files processed in a folder, in lower case with a leading dot. -/
  extensions : List String := textSet defaultExtensions
  /-- The names of the folders that are left alone. -/
  skipDirs : List String := textSet defaultSkipDirs
  /-- Whether the files stay as they are. -/
  dryRun : Bool := false
  /-- Whether a stripped text is tidied. -/
  tidy : Bool := true
  scan : ScanOptions := {}
  keepSource : Retention := .warnings
deriving DecidableEq, Repr

/-- An extension in lower case with one leading dot. -/
def normalizeExtension (ext : String) : String :=
  String.ofList ('.' :: lower (trimStart (· == '.') (trim ext.toList)))

namespace Options

/-- The options with another set of extensions, in any spelling. -/
def withExtensions (o : Options) (entries : List String) : Options :=
  { o with extensions := textSet (entries.map normalizeExtension) }

/-- Whether a path has one of the extensions. -/
def matchesExtension (o : Options) (path : String) : Bool :=
  match Path.extension? path with
  | none => false
  | some ext => o.extensions.contains (String.ofList ('.' :: lower ext))

/-- Whether a folder of this name is left alone. -/
def skips (o : Options) (name : String) : Bool := o.skipDirs.contains name

/-- A text without its comments, tidied if that is asked for. -/
def clean (o : Options) (source : String) : Stripped :=
  let stripped := strip o.scan source
  if o.tidy then { stripped with text := Uncomment.tidy stripped.text } else stripped

end Options

end Uncomment
