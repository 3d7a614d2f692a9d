/-
# Stripping comments

A scan runs until nothing is left to read. What is still open then is reported,
outermost first, after the faults found on the way. The result is the text without its
comments, the counts, and the diagnostics.

Every comment is replaced by the line terminators it held, so lines keep their numbers.

Key definitions: `Scan.run`, `strip`, `stripText`.
-/
import Uncomment.Scan.Step

namespace Uncomment

namespace Scan

/-- The state of a scan that has read everything. -/
def run (o : ScanOptions) (s : State) : State :=
  match _ : s.rest with
  | [] => s
  | c :: cs => run o (step o s c cs)
termination_by s.rest.length
decreasing_by simpa [*] using step_rest_length o s c cs

/-- What is missing when a frame is never closed. -/
def Frame.defect : Frame → Defect
  | template _ => .template
  | interpolation _ _ => .interpolation

/-- The offset at which a frame starts. -/
def Frame.start : Frame → Nat
  | template start => start
  | interpolation start _ => start

/-- The faults of the frames that are open at the end, outermost first. -/
def State.openFaults (s : State) : List Fault :=
  s.frames.reverse.map fun f => ⟨f.defect, Span.between f.start s.pos⟩

/-- Every fault of a finished scan, in the order of the report. -/
def State.allFaults (s : State) : List Fault := s.faults.reverse ++ s.openFaults

end Scan

/-- The result of stripping a text. -/
structure Stripped where
  text : String
  stats : Stats
  diagnostics : List Diagnostic
deriving DecidableEq, Repr

/-- The text without its comments, what was found on the way, and what was left open. -/
def strip (o : ScanOptions) (source : String) : Stripped :=
  let chars := source.toList
  let index := LineIndex.ofChars chars
  let done := Scan.run o { rest := chars }
  { text := String.ofList done.out.reverse
    stats := done.stats
    diagnostics := done.allFaults.map (·.locate index) }

/-- The text without its comments. -/
def stripText (source : String) : String := (strip {} source).text

end Uncomment
