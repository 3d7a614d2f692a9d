/-
# A scan by byte offsets

The scan of `Scan.step` cuts its text at characters. Here the same scan is made over a source that
does not change, by an offset in bytes: what is still to be read is the slice from the offset on,
comments and directives are measured by searches in it whose results are moved by constants, and
the brace before a comment is taken back by cutting what was written at a size in bytes. Such a
scan gives up as soon as an offset is past the end of its text or inside a character, a number
leaves the range of 32 bits, the open frame is not of the kind it was taken for, or more steps
would be needed than the source has bytes.

What each operation does is said for a scan that stands between two characters, before a known
text (`ByteScan.Faces`): it moves over a beginning of that text, and stands between two characters
again. The sizes that the searches give are those of such beginnings (`lineSize_eq`,
`bareLineSize_eq`, `commentEnds_eq`), and what is left of the text written when a brace is taken
back is a beginning of it (`dropOpenBrace_eq`).

Key definitions: `Scan.ByteScan`, `Scan.ByteScan.step`, `Scan.ByteScan.run`, `Scan.ByteScan.strip`,
`Scan.ByteScan.Faces`.
Key theorems: `Scan.ByteScan.Faces.skip_eq`, `Scan.ByteScan.Faces.copyN_eq`,
`Scan.ByteScan.commentEnds_eq`, `Scan.ByteScan.Faces.dropBraces_eq`.
-/
import Mathlib.Data.List.DropRight
import Uncomment.Proofs.ByteSlices
import Uncomment.Proofs.Offsets

namespace Uncomment

open Text

namespace Scan

/-- The state of a scan by byte offsets. -/
structure ByteScan where
  source : String
  /-- The number of bytes read. -/
  pos : Nat := 0
  /-- The text written. -/
  out : List Char := []
  tracker : Tracker := {}
  /-- The templates and interpolations that are open, innermost first. -/
  frames : List Frame := []
  stats : Stats := {}
  diagnostics : List Diagnostic := []

namespace ByteScan

/-! ### Reading and writing -/

/-- The text still to be read. -/
def rest (b : ByteScan) : Option (List Char) := sliceFrom b.source.toList b.pos

/-- Moves over a number of bytes, to a place between two characters. -/
def skip (n : Nat) (b : ByteScan) : Option ByteScan := do
  let pos ← addWithin 32 b.pos n
  let _ ← splitAtByte b.source.toList pos
  return { b with pos }

def write (text : List Char) (b : ByteScan) : ByteScan := { b with out := b.out ++ text }

/-- Copies a number of bytes. -/
def copyBytes (n : Nat) (b : ByteScan) : Option ByteScan := do
  let rest ← b.rest
  let text ← sliceTo rest n
  (b.write text).skip n

/-- Copies one character, if there is one. -/
def copy (b : ByteScan) : Option ByteScan := do
  match ← b.rest with
  | [] => return b
  | c :: _ => (b.write [c]).skip c.utf8Size

/-- Copies the next character if it is `c`. -/
def copyIf (c : Char) (b : ByteScan) : Option ByteScan := do
  let rest ← b.rest
  if rest.head? = some c then b.copy else return b

/-- Copies some characters. -/
def copyN : Nat → ByteScan → Option ByteScan
  | 0, b => some b
  | n + 1, b => do copyN n (← b.copy)

/-- Reports something left open that starts at an offset and is read up to here. -/
def report (defect : Defect) (start : Nat) (b : ByteScan) : Option ByteScan := do
  let position ← (LineIndex.ofChars b.source.toList).positionWithin 32 start
  let diagnostic := { defect, span := .between start b.pos, position }
  return { b with diagnostics := b.diagnostics ++ [diagnostic] }

/-- Reports something that starts at an offset unless it is closed. -/
def reportUnless (closed : Bool) (defect : Defect) (start : Nat) (b : ByteScan) :
    Option ByteScan :=
  if closed then some b else b.report defect start

/-- Counts what was found. -/
def tally (found : Stats) (b : ByteScan) : Option ByteScan := do
  let lineComments ← addWithin 32 b.stats.lineComments found.lineComments
  let blockComments ← addWithin 32 b.stats.blockComments found.blockComments
  let jsxComments ← addWithin 32 b.stats.jsxComments found.jsxComments
  let directives ← addWithin 32 b.stats.directives found.directives
  return { b with stats := { lineComments, blockComments, jsxComments, directives } }

/-! ### The constructs -/

/-- Copies a character of ordinary code. -/
def copyCode (c : Char) (b : ByteScan) : Option ByteScan := do
  let b ← b.copy
  return { b with tracker := b.tracker.update c }

/-- Copies a literal that starts with `c`, of an extent that depends on what follows. -/
def copyLiteral (extentOf : List Char → Extent) (defect : Defect) (c : Char) (b : ByteScan) :
    Option ByteScan := do
  let start := b.pos
  let rest ← b.rest
  let extent := extentOf rest.tail
  let b ← b.copyN (extent.length + 1)
  let b ← b.reportUnless extent.closed defect start
  return { b with tracker := .resetTo c }

def openTemplate (b : ByteScan) : Option ByteScan := do
  let start := b.pos
  let b ← b.copy
  return { b with frames := .template start :: b.frames }

/-- The size of a line with its line feed. -/
def lineSize (rest : List Char) : Option Nat :=
  match findBytes ['\n'] rest with
  | some i => addWithin 32 i 1
  | none => some (byteSize rest)

/-- Copies a directive with its line feed. -/
def copyDirective (b : ByteScan) : Option ByteScan := do
  let rest ← b.rest
  let size ← lineSize rest
  let b ← b.copyBytes size
  let b ← b.tally { directives := 1 }
  return { b with tracker := .resetTo '\n' }

/-- The size of a line without its line terminator. -/
def bareLineSize (rest : List Char) : Option Nat :=
  match findBytes ['\n'] rest with
  | some i => do
    let line ← sliceTo rest i
    if line.getLast? = some '\r' then subWithin i 1 else return i
  | none => some (byteSize rest)

/-- Copies a line terminator. -/
def copyEnding (b : ByteScan) : Option ByteScan := do
  let b ← b.copyIf '\r'
  b.copyIf '\n'

/-- Drops a line comment and keeps its line terminator. -/
def lineComment (b : ByteScan) : Option ByteScan := do
  let rest ← b.rest
  let size ← bareLineSize rest
  let b ← b.skip size
  let b ← b.copyEnding
  let b ← b.tally { lineComments := 1 }
  return { b with tracker := .resetTo '\n' }

/-- The offsets at which the inside of a block comment ends and at which the comment ends, and
whether it is closed. -/
def commentEnds (rest : List Char) : Option (Nat × Nat × Bool) := do
  let inside ← sliceFrom rest 2
  match findBytes ['*', '/'] inside with
  | some i =>
    let bodyEnd ← addWithin 32 i 2
    let commentEnd ← addWithin 32 bodyEnd 2
    return (bodyEnd, commentEnd, true)
  | none => return (byteSize rest, byteSize rest, false)

/-- Takes back the last brace that was written, with the spaces and tabs around it. -/
def dropOpenBrace (b : ByteScan) : Option ByteScan :=
  let trimmed := b.out.rdropWhile isSpaceOrTab
  if trimmed.getLast? = some '{' then do
    let out ← sliceTo b.out (byteSize (trimmed.dropLast.rdropWhile isSpaceOrTab))
    return { b with out }
  else some b

/-- Removes the braces around a comment that has just been read. -/
def dropBraces (b : ByteScan) : Option ByteScan := do
  let b ← b.dropOpenBrace
  let after ← b.rest
  let blanks ← subWithin (byteSize after) (byteSize (after.dropWhile isSpaceOrTab))
  let size ← addWithin 32 blanks 1
  let b ← b.skip size
  b.tally { jsxComments := 1 }

/-- Writes the line feeds of a block comment that starts at an offset and has just been read. -/
def leaveFeeds (feeds : Nat) (closed : Bool) (start : Nat) (b : ByteScan) : Option ByteScan :=
  let b := b.write (List.replicate feeds '\n')
  { b with tracker := b.tracker.clearWord }.reportUnless closed .comment start

/-- Drops a block comment and keeps its line feeds. -/
def blockComment (o : ScanOptions) (ctx : Context) (b : ByteScan) : Option ByteScan := do
  let start := b.pos
  let rest ← b.rest
  let (bodyEnd, commentEnd, closed) ← commentEnds rest
  let body ← sliceTo rest bodyEnd
  let after ← sliceFrom rest commentEnd
  let alone := ctx == .topLevel && o.jsxComments && closed &&
    (b.out.rdropWhile isSpaceOrTab).getLast? == some '{' && facesBrace after
  let b ← b.skip commentEnd
  let b ← if alone then b.dropBraces else b.tally { blockComments := 1 }
  b.leaveFeeds (body.count '\n') closed start

/-! ### Steps -/

/-- What starts with a slash in code. -/
def slash (o : ScanOptions) (ctx : Context) (b : ByteScan) : Option ByteScan := do
  let rest ← b.rest
  if ctx == .topLevel && isDirective rest then b.copyDirective
  else if ['/', '/'].isPrefixOf rest then b.lineComment
  else if ['/', '*'].isPrefixOf rest then b.blockComment o ctx
  else if b.tracker.canStartRegex && opensRegex rest.tail then
    b.copyLiteral (regexExtent false 0) .regex '/'
  else b.copyCode '/'

/-- What starts with `c` in code. -/
def codeStep (o : ScanOptions) (ctx : Context) (c : Char) (b : ByteScan) : Option ByteScan :=
  if isQuote c then b.copyLiteral (quotedExtent c 0) (.string c) c
  else if c = backtick then b.openTemplate
  else if c = '/' then b.slash o ctx
  else b.copyCode c

/-- What starts with `c` in a template. -/
def templateStep (c : Char) (b : ByteScan) : Option ByteScan := do
  let rest ← b.rest
  if c = '\\' ∧ rest[1]?.isSome then b.copyN 2
  else if c = backtick then
    let b ← b.copy
    return { b with frames := b.frames.tail, tracker := .resetTo backtick }
  else if ['$', '{'].isPrefixOf rest then
    let start := b.pos
    let b ← b.copyN 2
    return { b with frames := .interpolation start 1 :: b.frames }
  else b.copy

/-- What starts with `c` in an interpolation. It gives up if the innermost frame is no
interpolation. -/
def interpolationStep (o : ScanOptions) (c : Char) (b : ByteScan) : Option ByteScan :=
  match b.frames with
  | .interpolation start depth :: outer =>
    if c = '{' then do
      let depth ← addWithin 32 depth 1
      { b with frames := .interpolation start depth :: outer }.copyCode '{'
    else if c = '}' then do
      let depth ← subWithin depth 1
      let b ← { b with frames := .interpolation start depth :: outer }.copyCode '}'
      return if depth = 0 then { b with frames := b.frames.tail } else b
    else b.codeStep o .interpolation c
  | _ => none

/-- One step of a scan, before the character `c`. -/
def step (o : ScanOptions) (c : Char) (b : ByteScan) : Option ByteScan :=
  match b.frames with
  | [] => b.codeStep o .topLevel c
  | .template _ :: _ => b.templateStep c
  | .interpolation _ _ :: _ => b.interpolationStep o c

/-- A scan in at most `n` steps. -/
def run (o : ScanOptions) : Nat → ByteScan → Option ByteScan
  | 0, b => do
    match ← b.rest with
    | [] => return b
    | _ :: _ => none
  | n + 1, b => do
    match ← b.rest with
    | [] => return b
    | c :: _ => run o n (← b.step o c)

/-- The text without its comments, in at most as many steps as it has bytes. -/
def strip (o : ScanOptions) (source : String) : Option Stripped := do
  let b ← run o source.utf8ByteSize { source }
  let b ← b.frames.reverse.foldlM (fun b frame => b.report frame.defect frame.start) b
  return { text := String.ofList b.out, stats := b.stats, diagnostics := b.diagnostics }

/-! ### Where a scan stands -/

/-- Whether a scan of a source that is not too long stands between two characters, before a
text. -/
structure Faces (b : ByteScan) (rest : List Char) : Prop where
  exists_front : ∃ front, b.source.toList = front ++ rest ∧ b.pos = byteSize front
  size_lt : b.source.utf8ByteSize < 2 ^ 32

/-- The scan after a text that it moves over. -/
def past (text : List Char) (b : ByteScan) : ByteScan := { b with pos := b.pos + byteSize text }

/-- The scan after a text that it copies. -/
def copied (text : List Char) (b : ByteScan) : ByteScan := (b.write text).past text

theorem copied_nil (b : ByteScan) : b.copied [] = b := by
  simp [copied, write, past]

theorem copied_copied (b : ByteScan) (xs ys : List Char) :
    (b.copied xs).copied ys = b.copied (xs ++ ys) := by
  simp [copied, write, past, Nat.add_assoc]

namespace Faces

variable {b : ByteScan} {text rest : List Char}

theorem congr {b' : ByteScan} (h : b.Faces rest) (hsource : b'.source = b.source)
    (hpos : b'.pos = b.pos) : b'.Faces rest :=
  ⟨by rw [hsource, hpos]; exact h.exists_front, by rw [hsource]; exact h.size_lt⟩

theorem pos_add (h : b.Faces rest) : b.pos + byteSize rest = b.source.utf8ByteSize := by
  obtain ⟨front, hsource, hpos⟩ := h.exists_front
  rw [hpos, ← byteSize_append, ← hsource, byteSize_toList]

theorem rest_lt (h : b.Faces rest) : byteSize rest < 2 ^ 32 := by
  have hadd := h.pos_add
  have hlt := h.size_lt
  omega

theorem splitAtByte_isSome (h : b.Faces rest) : (splitAtByte b.source.toList b.pos).isSome := by
  obtain ⟨front, hsource, hpos⟩ := h.exists_front
  rw [hsource, hpos, splitAtByte_append]
  rfl

theorem rest_eq (h : b.Faces rest) : b.rest = some rest := by
  obtain ⟨front, hsource, hpos⟩ := h.exists_front
  rw [ByteScan.rest, hsource, hpos, sliceFrom_append]

theorem past (h : b.Faces (text ++ rest)) : (b.past text).Faces rest := by
  obtain ⟨front, hsource, hpos⟩ := h.exists_front
  refine ⟨⟨front ++ text, ?_, ?_⟩, h.size_lt⟩
  · rw [List.append_assoc]
    exact hsource
  · rw [byteSize_append, ← hpos]
    rfl

theorem write (h : b.Faces rest) (text : List Char) : (b.write text).Faces rest := h.congr rfl rfl

theorem copied (h : b.Faces (text ++ rest)) : (b.copied text).Faces rest := (h.write text).past

theorem skip_eq (h : b.Faces (text ++ rest)) : b.skip (byteSize text) = some (b.past text) := by
  have hpast := h.past
  have hsize := hpast.pos_add
  have hlt := hpast.size_lt
  have hpos : (b.past text).pos = b.pos + byteSize text := rfl
  obtain ⟨parts, hsplit⟩ := Option.isSome_iff_exists.mp hpast.splitAtByte_isSome
  have hsplit' : splitAtByte b.source.toList (b.pos + byteSize text) = some parts := hsplit
  rw [skip, addWithin_eq (by omega)]
  simp only [Option.bind_eq_bind, Option.bind_some, hsplit']
  rfl

theorem copyBytes_eq (h : b.Faces (text ++ rest)) :
    b.copyBytes (byteSize text) = some (b.copied text) := by
  rw [copyBytes, h.rest_eq]
  simp only [Option.bind_eq_bind, Option.bind_some, sliceTo_append, (h.write text).skip_eq]
  rfl

theorem copy_eq {c : Char} (h : b.Faces (c :: rest)) : b.copy = some (b.copied [c]) := by
  have hwrite : (b.write [c]).Faces ([c] ++ rest) := h.write [c]
  rw [copy, h.rest_eq]
  exact hwrite.skip_eq

theorem copyIf_eq {c : Char} (h : b.Faces (c :: rest)) : b.copyIf c = some (b.copied [c]) := by
  rw [copyIf, h.rest_eq]
  exact (if_pos rfl).trans h.copy_eq

theorem copyIf_eq_self {c : Char} (h : b.Faces rest) (hc : rest.head? ≠ some c) :
    b.copyIf c = some b := by
  rw [copyIf, h.rest_eq]
  exact if_neg hc

theorem copyN_eq : ∀ {text : List Char} {b : ByteScan}, b.Faces (text ++ rest) →
    b.copyN text.length = some (b.copied text)
  | [], b, _ => by
    rw [copied_nil]
    rfl
  | c :: text, b, h => by
    have hfirst : b.Faces ([c] ++ (text ++ rest)) := h
    have hcopied : (b.copied [c]).Faces (text ++ rest) := hfirst.copied
    rw [List.length_cons, copyN, hfirst.copy_eq]
    simp only [Option.bind_eq_bind, Option.bind_some]
    rw [copyN_eq hcopied, copied_copied]
    rfl

end Faces

theorem report_eq (b : ByteScan) (defect : Defect) {start : Nat} (h : start + 1 < 2 ^ 32) :
    b.report defect start = some { b with
      diagnostics := b.diagnostics ++
        [Fault.locate (.ofChars b.source.toList) ⟨defect, .between start b.pos⟩] } := by
  rw [report, LineIndex.positionWithin_eq b.source h]
  rfl

theorem reportUnless_eq (b : ByteScan) (closed : Bool) (defect : Defect) {start : Nat}
    (h : start + 1 < 2 ^ 32) :
    b.reportUnless closed defect start = some { b with
      diagnostics := b.diagnostics ++ if closed then [] else
        [Fault.locate (.ofChars b.source.toList) ⟨defect, .between start b.pos⟩] } := by
  cases closed with
  | true => simp [reportUnless]
  | false => exact b.report_eq defect h

theorem tally_eq {b : ByteScan} {found : Stats} (hfound : found.removed + found.directives = 1)
    (h : b.stats.removed + b.stats.directives + 1 < 2 ^ 32) :
    b.tally found = some { b with stats := b.stats + found } := by
  rw [Stats.removed] at h hfound
  rw [tally, addWithin_eq (by omega), addWithin_eq (by omega), addWithin_eq (by omega),
    addWithin_eq (by omega)]
  rfl

/-! ### Sizes of lines and comments -/

theorem not_infix_of_notMem {line : List Char} (h : '\n' ∉ line) : ¬ ['\n'] <:+: line := fun hin =>
  h (hin.subset (List.mem_singleton_self _))

theorem findBytes_feed {line : List Char} (h : '\n' ∉ line) (rest : List Char) :
    findBytes ['\n'] (line ++ '\n' :: rest) = some (byteSize line) := by
  refine findBytes_first (by simp) rest ?_
  rw [List.dropLast_singleton, List.append_nil]
  exact not_infix_of_notMem h

theorem lineSize_eq {line rest : List Char} (h : FullLine line rest)
    (hsize : byteSize (line ++ rest) < 2 ^ 32) :
    lineSize (line ++ rest) = some (byteSize line) := by
  cases h with
  | feed line rest hline =>
    have hfeed : byteSize (line ++ ['\n']) = byteSize line + 1 := byteSize_append ..
    rw [byteSize_append] at hsize
    rw [lineSize, List.append_assoc, List.singleton_append, findBytes_feed hline, hfeed]
    exact addWithin_eq (by omega)
  | stop hline =>
    rw [lineSize, List.append_nil, findBytes_none (not_infix_of_notMem hline)]

theorem bareLineSize_eq {text ending rest : List Char} (htext : '\n' ∉ text)
    (hend : LineEnd text ending rest) :
    bareLineSize (text ++ (ending ++ rest)) = some (byteSize text) := by
  cases hend with
  | feed rest hlast =>
    have hslice := sliceTo_append text ('\n' :: rest)
    rw [bareLineSize, List.singleton_append, findBytes_feed htext]
    simp only [hslice, Option.bind_eq_bind, Option.bind_some, if_neg hlast]
    rfl
  | crlf rest =>
    have hline : '\n' ∉ text ++ ['\r'] := by simp [htext]
    have hparts : text ++ (['\r', '\n'] ++ rest) = text ++ ['\r'] ++ '\n' :: rest := by simp
    have hslice := sliceTo_append (text ++ ['\r']) ('\n' :: rest)
    have hlast : (text ++ ['\r']).getLast? = some '\r' := List.getLast?_concat
    have hsize : byteSize (text ++ ['\r']) = byteSize text + 1 := byteSize_append ..
    rw [bareLineSize, hparts, findBytes_feed hline]
    simp only [hslice, Option.bind_eq_bind, Option.bind_some, if_pos hlast]
    rw [hsize]
    exact subWithin_eq (Nat.le_add_left ..)
  | stop =>
    rw [bareLineSize, List.append_nil, List.append_nil, findBytes_none (not_infix_of_notMem htext)]

theorem Faces.copyEnding_eq {b : ByteScan} {text ending rest : List Char}
    (h : b.Faces (ending ++ rest)) (hend : LineEnd text ending rest) :
    b.copyEnding = some (b.copied ending) := by
  rw [copyEnding]
  cases hend with
  | feed rest _ =>
    have hfeed : b.Faces ('\n' :: rest) := h
    rw [hfeed.copyIf_eq_self (by simp)]
    exact hfeed.copyIf_eq
  | crlf rest =>
    have hreturn : b.Faces (['\r'] ++ '\n' :: rest) := h
    rw [hreturn.copyIf_eq]
    refine hreturn.copied.copyIf_eq.trans ?_
    rw [copied_copied]
    rfl
  | stop =>
    rw [h.copyIf_eq_self (by simp), copied_nil]
    exact h.copyIf_eq_self (by simp)

/-- The inside of a block comment ends between two characters, after all of its line feeds. -/
theorem commentEnds_eq {closed : Bool} {body rest : List Char} (h : BlockBody closed body rest)
    (hsize : byteSize ('/' :: '*' :: (body ++ rest)) < 2 ^ 32) :
    ∃ front back, body = front ++ back ∧ front.count '\n' = body.count '\n' ∧
      commentEnds ('/' :: '*' :: (body ++ rest)) =
        some (byteSize ('/' :: '*' :: front), byteSize ('/' :: '*' :: body), closed) := by
  have hinside : sliceFrom ('/' :: '*' :: (body ++ rest)) 2 = some (body ++ rest) :=
    sliceFrom_append ['/', '*'] (body ++ rest)
  have hopen : ∀ cs, byteSize ('/' :: '*' :: cs) = byteSize cs + 2 := by
    intro cs
    have happend : byteSize ('/' :: '*' :: cs) = 2 + byteSize cs := byteSize_append ['/', '*'] cs
    omega
  rw [hopen, byteSize_append] at hsize
  rw [commentEnds, hinside]
  simp only [Option.bind_eq_bind, Option.bind_some, hopen]
  cases h with
  | closed inner rest hinner =>
    have hfind := findBytes_first (by simp) rest hinner
    have hclose : byteSize (inner ++ ['*', '/']) = byteSize inner + 2 := byteSize_append ..
    refine ⟨inner, ['*', '/'], rfl, by simp, ?_⟩
    rw [hclose] at hsize ⊢
    rw [List.append_assoc, hfind]
    simp only [addWithin_eq (show byteSize inner + 2 < 2 ^ 32 by omega), Option.bind_some]
    rw [addWithin_eq (by omega)]
    rfl
  | stop hbody =>
    refine ⟨body, [], by simp, rfl, ?_⟩
    rw [List.append_nil, findBytes_none hbody]
    rfl

/-! ### Braces -/

theorem getLast?_rdropWhile_reverse (out : List Char) :
    (out.reverse.rdropWhile isSpaceOrTab).getLast? = (out.dropWhile isSpaceOrTab).head? := by
  rw [List.rdropWhile, List.reverse_reverse, List.getLast?_reverse]

/-- What is left when a brace is taken back is a beginning of what was written. -/
theorem dropOpenBrace_eq {b : ByteScan} {out : List Char} (hout : b.out = out.reverse)
    (h : followsBrace out = true) :
    b.dropOpenBrace = some { b with out := (dropBrace out).reverse } := by
  rw [followsBrace, beq_iff_eq] at h
  have hkeep : ((out.reverse.rdropWhile isSpaceOrTab).dropLast.rdropWhile isSpaceOrTab) =
      (dropBrace out).reverse := by
    rw [List.rdropWhile, List.rdropWhile, List.reverse_reverse, List.dropLast_reverse,
      List.reverse_reverse, dropBrace, List.drop_one]
  obtain ⟨taken, htaken⟩ : dropBrace out <:+ out :=
    (List.dropWhile_suffix _).trans ((List.drop_suffix ..).trans (List.dropWhile_suffix _))
  have hslice : sliceTo out.reverse (byteSize (dropBrace out).reverse) =
      some (dropBrace out).reverse := by
    conv_lhs => rw [← htaken, List.reverse_append]
    rw [htaken]
    exact sliceTo_append ..
  rw [dropOpenBrace, hout]
  simp only [getLast?_rdropWhile_reverse, h, if_true, hkeep, hslice]
  rfl

theorem Faces.dropBraces_eq {b : ByteScan} {out after : List Char} (h : b.Faces after)
    (hout : b.out = out.reverse) (hbrace : followsBrace out = true)
    (hafter : facesBrace after = true)
    (hcount : b.stats.removed + b.stats.directives + 1 < 2 ^ 32) :
    b.dropBraces = some { b.past (after.takeWhile isSpaceOrTab ++ ['}']) with
      out := (dropBrace out).reverse
      stats := b.stats + { jsxComments := 1 } } := by
  obtain ⟨rest, hparts⟩ := facesBrace_split hafter
  have hwhole := congrArg byteSize
    (List.takeWhile_append_dropWhile (p := isSpaceOrTab) (l := after))
  rw [byteSize_append] at hwhole
  generalize after.takeWhile isSpaceOrTab = blanks at hparts hwhole ⊢
  have hopen : { b with out := (dropBrace out).reverse }.Faces after := h.congr rfl rfl
  have hskip : { b with out := (dropBrace out).reverse }.skip (byteSize (blanks ++ ['}'])) =
      some ({ b with out := (dropBrace out).reverse }.past (blanks ++ ['}'])) := by
    rw [hparts, List.append_cons] at hopen
    exact hopen.skip_eq
  have hsize : byteSize (blanks ++ ['}']) = byteSize blanks + 1 := byteSize_append ..
  have hblanks : subWithin (byteSize after) (byteSize (after.dropWhile isSpaceOrTab)) =
      some (byteSize blanks) := by
    rw [subWithin_eq (by omega)]
    congr 1
    omega
  have hone : addWithin 32 (byteSize blanks) 1 = some (byteSize blanks + 1) := by
    have hlt := h.rest_lt
    rw [hparts, List.append_cons, byteSize_append, hsize] at hlt
    exact addWithin_eq (by omega)
  rw [hsize] at hskip
  rw [dropBraces, dropOpenBrace_eq hout hbrace]
  simp only [Option.bind_eq_bind, Option.bind_some, hopen.rest_eq, hblanks, hone, hskip]
  exact tally_eq rfl hcount

end ByteScan

end Scan

end Uncomment
