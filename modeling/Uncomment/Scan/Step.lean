/-
# One step of a scan

A step reads one lexeme and takes note of it: literals, templates and directives are
copied, a comment leaves only its line terminators, and a comment alone in a pair of
braces takes the braces with it. A literal or comment that is not closed is a fault.

Key definitions: `Scan.absorb`, `Scan.step`.
Key theorems: `Scan.step_rest_length`.
-/
import Uncomment.Scan.Read

namespace Uncomment

open Text

namespace Scan

/-- The open frames after a character of code: braces are counted inside an interpolation,
and the last one closes it. -/
def countBrace (c : Char) : List Frame → List Frame
  | .interpolation start depth :: frames =>
    if c = '{' then .interpolation start (depth + 1) :: frames
    else if c = '}' then
      if depth = 1 then frames else .interpolation start (depth - 1) :: frames
    else .interpolation start depth :: frames
  | frames => frames

/-- What was written, without its last brace and the spaces and tabs around it. -/
def dropBrace (out : List Char) : List Char :=
  ((out.dropWhile isSpaceOrTab).drop 1).dropWhile isSpaceOrTab

/-- The line feeds of a text. -/
def feeds (cs : List Char) : List Char := cs.filter (· = '\n')

/-- Adds a fault that covers a text which starts at the present place, unless it is closed. -/
def State.note (s : State) (closed : Bool) (defect : Defect) (text : List Char) : List Fault :=
  if closed then s.faults
  else ⟨defect, Span.between s.pos (s.pos + byteSize text)⟩ :: s.faults

/-- The state after a lexeme that `rest` follows. -/
def absorb (s : State) (l : Lexeme) (rest : List Char) : State :=
  let moved := { s with rest, pos := s.pos + byteSize l.text }
  let copied := { moved with out := l.text.reverse ++ s.out }
  match l with
  | .code c => { copied with tracker := s.tracker.update c, frames := countBrace c s.frames }
  | .quoted quote _ closed =>
    { copied with
      tracker := .resetTo quote
      faults := s.note closed (.string quote) l.text }
  | .regex _ closed =>
    { copied with tracker := .resetTo '/', faults := s.note closed .regex l.text }
  | .openTemplate => { copied with frames := .template s.pos :: s.frames }
  | .templateText _ => copied
  | .closeTemplate => { copied with frames := s.frames.tail, tracker := .resetTo backtick }
  | .openInterpolation => { copied with frames := .interpolation s.pos 1 :: s.frames }
  | .directive _ =>
    { copied with
      tracker := .resetTo '\n'
      stats := { s.stats with directives := s.stats.directives + 1 } }
  | .lineComment _ ending =>
    { moved with
      out := ending.reverse ++ s.out
      tracker := .resetTo '\n'
      stats := { s.stats with lineComments := s.stats.lineComments + 1 } }
  | .blockComment body closed =>
    { moved with
      out := feeds body ++ s.out
      tracker := s.tracker.clearWord
      stats := { s.stats with blockComments := s.stats.blockComments + 1 }
      faults := s.note closed .comment l.text }
  | .jsxComment body _ =>
    { moved with
      out := feeds body ++ dropBrace s.out
      tracker := s.tracker.clearWord
      stats := { s.stats with jsxComments := s.stats.jsxComments + 1 } }

/-- The state after the lexeme that starts with `c`. -/
def step (o : ScanOptions) (s : State) (c : Char) (cs : List Char) : State :=
  let read := next o s c cs
  absorb s read.1 read.2

@[simp] theorem absorb_rest (s : State) (l : Lexeme) (rest : List Char) :
    (absorb s l rest).rest = rest := by
  cases l <;> rfl

/-- A step leaves less to be read. -/
theorem step_rest_length (o : ScanOptions) (s : State) (c : Char) (cs : List Char) :
    (step o s c cs).rest.length < (c :: cs).length := by
  have whole := congrArg List.length (next_append o s c cs)
  have := List.length_pos_iff.mpr (next_text_ne o s c cs)
  simp only [List.length_append] at whole
  simp only [step, absorb_rest]
  omega

end Scan

end Uncomment
