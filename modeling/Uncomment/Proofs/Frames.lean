/-
# The open frames of a scan

Templates and interpolations nest to any depth, and a scan keeps those that are open on a
stack. A step turns the stack in a few ways only, told by what is open and what is read
(`Turn`): a template opens in code and closes at its mark, an interpolation opens in a template
and closes at the brace at which no other is open in it, and between these its braces are
counted up and down. So what is closed is always what is innermost.

The invariant is `Stacked`: seen from a place in the source, each frame starts before it, at
its mark, and an interpolation starts so far before it that there is room for the braces that
are open in it; and below a frame there is one of the other kind that is stacked up to where
the frame starts. Every turn keeps it, so it holds at every state of a scan, and with it the
diagnostics on what is never closed alternate.

Key definitions: `Scan.Turn`, `Scan.Stacked`, `Scan.Nested`, `EndsNested`.
Key theorems: `Scan.turn_step`, `Scan.Stacked.turn`, `Scan.stacked_of_reaches`, `nested_frames`.
-/
import Uncomment.Proofs.Reach

namespace Uncomment

open Text

namespace Scan

/-! ### What a step does to the stack -/

namespace Frame

/-- Whether this is a template. -/
def isTemplate : Frame → Bool
  | template _ => true
  | interpolation _ _ => false

/-- The mark that opens a frame. -/
def mark : Frame → List Char
  | template _ => [backtick]
  | interpolation _ _ => ['$', '{']

end Frame

/-- Whether a text that is read inside some frames neither opens nor closes anything. -/
def Quiet : List Frame → List Char → Prop
  | [], text => text ≠ [backtick]
  | .template _ :: _, text => text ≠ [backtick] ∧ text ≠ ['$', '{']
  | .interpolation _ _ :: _, text => text ≠ [backtick] ∧ text ≠ ['{'] ∧ text ≠ ['}']

/-- What a step at an offset does to the open frames when it reads a text. What is closed is the
innermost frame, and it is of the kind in which the text is read. -/
inductive Turn (pos : Nat) : List Char → List Frame → List Frame → Prop where
  | stay {text : List Char} {frames : List Frame} :
      Quiet frames text → Turn pos text frames frames
  | openTemplate {frames : List Frame} :
      (∀ f ∈ frames.head?, f.isTemplate = false) →
      Turn pos [backtick] frames (.template pos :: frames)
  | closeTemplate (start : Nat) (frames : List Frame) :
      Turn pos [backtick] (.template start :: frames) frames
  | openInterpolation (start : Nat) (frames : List Frame) :
      Turn pos ['$', '{'] (.template start :: frames)
        (.interpolation pos 1 :: .template start :: frames)
  | openBrace (start depth : Nat) (frames : List Frame) :
      Turn pos ['{'] (.interpolation start depth :: frames)
        (.interpolation start (depth + 1) :: frames)
  | closeBrace (start depth : Nat) (frames : List Frame) :
      Turn pos ['}'] (.interpolation start (depth + 2) :: frames)
        (.interpolation start (depth + 1) :: frames)
  | closeInterpolation (start : Nat) (frames : List Frame) :
      Turn pos ['}'] (.interpolation start 1 :: frames) frames

/-- Whether some brace is open in every interpolation. -/
def DepthPos (frames : List Frame) : Prop :=
  ∀ start depth, .interpolation start depth ∈ frames → 1 ≤ depth

theorem code_frames {s : State} (h : s.reading.place ≠ .template) :
    ∀ f ∈ s.frames.head?, f.isTemplate = false := by
  intro f hf
  obtain ⟨frames, hframes⟩ := List.head?_eq_some_iff.mp hf
  cases f with
  | template start =>
    refine absurd ?_ h
    rw [State.reading, hframes]
    rfl
  | interpolation start depth => rfl

theorem template_frames {s : State} (h : s.reading.place = .template) :
    ∃ start frames, s.frames = .template start :: frames := by
  match hframes : s.frames with
  | [] => exact absurd hframes (frames_ne_nil h)
  | .template start :: frames => exact ⟨start, frames, rfl⟩
  | .interpolation _ _ :: _ =>
    rw [State.reading, hframes] at h
    exact Place.noConfusion h

/-- In code, only a backtick and single braces turn the stack. -/
theorem quiet_of_code {frames : List Frame} {text : List Char}
    (h : ∀ f ∈ frames.head?, f.isTemplate = false) (htick : text ≠ [backtick])
    (hopen : text ≠ ['{']) (hclose : text ≠ ['}']) : Quiet frames text := by
  match frames with
  | [] => exact htick
  | .template _ :: _ => exact absurd (h _ rfl) (by simp [Frame.isTemplate])
  | .interpolation _ _ :: _ => exact ⟨htick, hopen, hclose⟩

/-- A text that starts with something else than these marks is none of them. -/
theorem quiet_of_head {frames : List Frame} {c : Char} {cs : List Char}
    (h : ∀ f ∈ frames.head?, f.isTemplate = false) (htick : c ≠ backtick) (hopen : c ≠ '{')
    (hclose : c ≠ '}') : Quiet frames (c :: cs) := by
  refine quiet_of_code h ?_ ?_ ?_
  · exact fun heq => htick (List.cons.inj heq).1
  · exact fun heq => hopen (List.cons.inj heq).1
  · exact fun heq => hclose (List.cons.inj heq).1

/-- A character of code turns the stack by counting braces. -/
theorem turn_code (pos : Nat) {frames : List Frame} {c : Char}
    (hcode : ∀ f ∈ frames.head?, f.isTemplate = false) (htick : c ≠ backtick)
    (hpos : DepthPos frames) : Turn pos [c] frames (countBrace c frames) := by
  match frames with
  | [] =>
    refine .stay ?_
    intro heq
    exact htick (List.cons.inj heq).1
  | .template _ :: _ => exact absurd (hcode _ rfl) (by simp [Frame.isTemplate])
  | .interpolation start depth :: frames =>
    have hdepth : 1 ≤ depth := hpos start depth (List.mem_cons_self ..)
    simp only [countBrace]
    split_ifs with hopen hclose hone
    · subst hopen
      exact .openBrace start depth frames
    · subst hclose hone
      exact .closeInterpolation start frames
    · subst hclose
      -- at least one brace besides that of the interpolation is open
      obtain ⟨d, rfl⟩ : ∃ d, depth = d + 2 := ⟨depth - 2, by omega⟩
      exact .closeBrace start d frames
    · exact .stay (quiet_of_head hcode htick hopen hclose)

/-- A lexeme that fits turns the stack. -/
theorem turn_absorb {s : State} {l : Lexeme} {rest : List Char} (hfits : Fits s.reading l rest)
    (hpos : DepthPos s.frames) : Turn s.pos l.text s.frames (absorb s l rest).frames := by
  cases hfits with
  | code hplace _ htick _ => exact turn_code s.pos (code_frames hplace) htick hpos
  | quoted hplace hquote _ _ =>
    refine .stay (quiet_of_head (code_frames hplace) ?_ ?_ ?_)
    · rintro rfl
      exact absurd hquote (by decide)
    · rintro rfl
      exact absurd hquote (by decide)
    · rintro rfl
      exact absurd hquote (by decide)
  | regex hplace =>
    exact .stay (quiet_of_head (code_frames hplace) (by decide) (by decide) (by decide))
  | openTemplate _ hplace => exact .openTemplate (code_frames hplace)
  | escape c _ hplace =>
    obtain ⟨start, frames, hframes⟩ := template_frames hplace
    refine .stay ?_
    rw [hframes]
    exact ⟨by simp [Lexeme.text], by simp [Lexeme.text]⟩
  | backslash hplace =>
    obtain ⟨start, frames, hframes⟩ := template_frames hplace
    refine .stay ?_
    rw [hframes]
    exact ⟨by decide, by decide⟩
  | templateText hplace _ htick _ =>
    obtain ⟨start, frames, hframes⟩ := template_frames hplace
    refine .stay ?_
    rw [hframes]
    exact ⟨by simpa [Lexeme.text] using htick, by simp [Lexeme.text]⟩
  | closeTemplate _ hplace =>
    obtain ⟨start, frames, hframes⟩ := template_frames hplace
    have hafter : (absorb s .closeTemplate rest).frames = frames := by simp [absorb, hframes]
    rw [hafter, hframes]
    exact .closeTemplate start frames
  | openInterpolation _ hplace =>
    obtain ⟨start, frames, hframes⟩ := template_frames hplace
    have hafter : (absorb s .openInterpolation rest).frames = .interpolation s.pos 1 :: s.frames :=
      rfl
    rw [hafter, hframes]
    exact .openInterpolation start frames
  | directive hplace hdir _ =>
    obtain ⟨line, rfl⟩ := slashes_of_isDirective hdir
    have hcode : s.reading.place ≠ .template := by simp [hplace]
    exact .stay (quiet_of_head (code_frames hcode) (by decide) (by decide) (by decide))
  | lineComment hplace =>
    exact .stay (quiet_of_head (code_frames hplace) (by decide) (by decide) (by decide))
  | blockComment hplace =>
    exact .stay (quiet_of_head (code_frames hplace) (by decide) (by decide) (by decide))

/-- **A step turns the stack.** -/
theorem turn_step (o : ScanOptions) {s : State} (hpos : DepthPos s.frames) (c : Char)
    (cs : List Char) :
    Turn s.pos (next o s c cs).1.text s.frames (step o s c cs).frames := by
  rcases fits_or_jsx o s c cs with hfits | ⟨hframes, body, tail, hjsx⟩
  · exact turn_absorb hfits hpos
  · -- a comment with braces stands at top level and leaves it there
    have hafter : (step o s c cs).frames = s.frames := by
      rw [step, hjsx]
      rfl
    rw [hafter, hframes, hjsx]
    exact .stay (by simp [Quiet, Lexeme.text, backtick])

/-! ### The invariant -/

/-- Whether a source holds a text at an offset. -/
def HoldsAt (source : List Char) (offset : Nat) (text : List Char) : Prop :=
  ∃ front back, source = front ++ text ++ back ∧ byteSize front = offset

/-- Whether some open frames, innermost first, are stacked in a source up to an offset. The
braces that are open in an interpolation have room between its start and that offset. -/
inductive Stacked (source : List Char) : Nat → List Frame → Prop where
  | nil (stop : Nat) : Stacked source stop []
  | template {stop start : Nat} {frames : List Frame} :
      start < stop → HoldsAt source start [backtick] →
      (∀ f ∈ frames.head?, f.isTemplate = false) → Stacked source start frames →
      Stacked source stop (.template start :: frames)
  | interpolation {stop start depth outer : Nat} {frames : List Frame} :
      1 ≤ depth → start + depth < stop → HoldsAt source start ['$', '{'] →
      Stacked source start (.template outer :: frames) →
      Stacked source stop (.interpolation start depth :: .template outer :: frames)

namespace Stacked

variable {source : List Char} {stop stop' : Nat} {frames : List Frame}

/-- Frames that are stacked up to an offset are so up to a later one. -/
theorem mono (h : Stacked source stop frames) (hle : stop ≤ stop') :
    Stacked source stop' frames := by
  cases h with
  | nil => exact .nil stop'
  | template hstart hmark hcode houter => exact .template (by omega) hmark hcode houter
  | interpolation hdepth hroom hmark houter =>
    exact .interpolation hdepth (by omega) hmark houter

theorem depthPos (h : Stacked source stop frames) : DepthPos frames := by
  induction h with
  | nil => simp [DepthPos]
  | template _ _ _ _ ih =>
    intro start depth hmem
    exact ih start depth (by simpa using hmem)
  | interpolation hdepth _ _ _ ih =>
    intro start depth hmem
    rcases List.mem_cons.mp hmem with heq | hmem
    · obtain ⟨rfl, rfl⟩ := Frame.interpolation.inj heq
      exact hdepth
    · exact ih start depth hmem

/-- **What a step keeps.** A turn at an offset of the source leaves the frames stacked up to the
offset after the text that is read. -/
theorem turn {pos : Nat} {text : List Char} {frames' : List Frame}
    (h : Stacked source pos frames) (hturn : Turn pos text frames frames')
    (htext : HoldsAt source pos text) : Stacked source (pos + byteSize text) frames' := by
  cases hturn with
  | stay => exact h.mono (Nat.le_add_right ..)
  | openTemplate hcode => exact .template (by simp [backtick, Char.utf8Size]) htext hcode h
  | closeTemplate start =>
    cases h with
    | template hstart _ _ houter => exact houter.mono (by omega)
  | openInterpolation => exact .interpolation (le_refl 1) (by simp [Char.utf8Size]) htext h
  | openBrace start depth =>
    have hsize : byteSize ['{'] = 1 := rfl
    rw [hsize]
    cases h with
    | interpolation hdepth hroom hmark houter =>
      exact .interpolation (by omega) (by omega) hmark houter
  | closeBrace start depth =>
    cases h with
    | interpolation hdepth hroom hmark houter =>
      exact .interpolation (by omega) (by omega) hmark houter
  | closeInterpolation start =>
    cases h with
    | interpolation hdepth hroom hmark houter => exact houter.mono (by omega)

/-- Every frame starts before the offset up to which it is stacked. -/
theorem start_lt (h : Stacked source stop frames) : ∀ f ∈ frames, f.start < stop := by
  induction h with
  | nil => simp
  | template hstart _ _ _ ih =>
    intro f hf
    rcases List.mem_cons.mp hf with rfl | hf
    · exact hstart
    · exact (ih f hf).trans hstart
  | interpolation hdepth hroom _ _ ih =>
    intro f hf
    rcases List.mem_cons.mp hf with rfl | hf
    · simp only [Frame.start]
      omega
    · have := ih f hf
      omega

/-- The source holds the mark of every frame where it starts. -/
theorem marked (h : Stacked source stop frames) :
    ∀ f ∈ frames, HoldsAt source f.start f.mark := by
  induction h with
  | nil => simp
  | template _ hmark _ _ ih =>
    intro f hf
    rcases List.mem_cons.mp hf with rfl | hf
    · exact hmark
    · exact ih f hf
  | interpolation _ _ hmark _ ih =>
    intro f hf
    rcases List.mem_cons.mp hf with rfl | hf
    · exact hmark
    · exact ih f hf

/-- The braces that are open in an interpolation have room after its start. -/
theorem depth_lt (h : Stacked source stop frames) :
    ∀ start depth, .interpolation start depth ∈ frames → start + depth < stop := by
  induction h with
  | nil => simp
  | template hstart _ _ _ ih =>
    intro start depth hmem
    have := ih start depth (by simpa using hmem)
    omega
  | interpolation _ hroom _ _ ih =>
    intro start depth hmem
    rcases List.mem_cons.mp hmem with heq | hmem
    · obtain ⟨rfl, rfl⟩ := Frame.interpolation.inj heq
      exact hroom
    · have := ih start depth hmem
      omega

/-- From the outermost frame on, starts increase. -/
theorem increasing (h : Stacked source stop frames) :
    (frames.reverse.map Frame.start).Pairwise (· < ·) := by
  have hcons : ∀ {f : Frame} {fs : List Frame}, (fs.reverse.map Frame.start).Pairwise (· < ·) →
      (∀ g ∈ fs, g.start < f.start) → ((f :: fs).reverse.map Frame.start).Pairwise (· < ·) := by
    intro f fs hfs hlt
    rw [List.reverse_cons, List.map_append, List.pairwise_append]
    refine ⟨hfs, List.pairwise_singleton .., ?_⟩
    intro a ha b hb
    obtain ⟨g, hg, rfl⟩ := List.mem_map.mp ha
    rw [List.map_singleton, List.mem_singleton] at hb
    exact hb ▸ hlt g (List.mem_reverse.mp hg)
  induction h with
  | nil => exact .nil
  | template _ _ _ houter ih => exact hcons ih houter.start_lt
  | interpolation _ _ _ houter ih => exact hcons ih houter.start_lt

/-- The innermost frame is a template if an even number of frames is open around it. -/
theorem innermost (h : Stacked source stop frames) : ∀ f fs, frames = f :: fs →
    (f.isTemplate = true ↔ fs.length % 2 = 0) := by
  induction h with
  | nil => simp
  | @template _ _ frames _ _ hcode _ ih =>
    rintro f fs heq
    obtain ⟨rfl, rfl⟩ := List.cons.inj heq
    refine iff_of_true rfl ?_
    cases frames with
    | nil => rfl
    | cons g gs =>
      -- an interpolation is directly around it, so an odd number is around that
      have hg : g.isTemplate = false := hcode g rfl
      have := ih g gs rfl
      rw [hg] at this
      simp only [Bool.false_eq_true, false_iff] at this
      rw [List.length_cons]
      omega
  | @interpolation _ _ _ outer frames _ _ _ _ ih =>
    rintro f fs heq
    obtain ⟨rfl, rfl⟩ := List.cons.inj heq
    have := (ih (.template outer) frames rfl).mp rfl
    simp only [Frame.isTemplate, Bool.false_eq_true, false_iff, List.length_cons]
    omega

/-- From the outermost frame on, templates and interpolations alternate. -/
theorem alternates (h : Stacked source stop frames) : ∀ i f, frames.reverse[i]? = some f →
    (f.isTemplate = true ↔ i % 2 = 0) := by
  have hcons : ∀ {f : Frame} {fs : List Frame},
      (∀ i g, fs.reverse[i]? = some g → (g.isTemplate = true ↔ i % 2 = 0)) →
      (f.isTemplate = true ↔ fs.length % 2 = 0) →
      ∀ i g, (f :: fs).reverse[i]? = some g → (g.isTemplate = true ↔ i % 2 = 0) := by
    intro f fs hfs hf i g hg
    rw [List.reverse_cons, List.getElem?_append] at hg
    split_ifs at hg with hlt
    · exact hfs i g hg
    · rw [List.length_reverse] at hg hlt
      obtain ⟨hi, rfl⟩ : i - fs.length = 0 ∧ f = g := by
        rw [List.getElem?_singleton] at hg
        split_ifs at hg with hi
        exact ⟨hi, by simpa using hg⟩
      have : i = fs.length := by omega
      rw [this]
      exact hf
  have hinner := h.innermost
  induction h with
  | nil => simp
  | template _ _ _ houter ih => exact hcons (ih houter.innermost) (hinner _ _ rfl)
  | interpolation _ _ _ houter ih => exact hcons (ih houter.innermost) (hinner _ _ rfl)

end Stacked

/-! ### Every state of a scan -/

/-- At every state of a scan, the open frames are stacked up to the offset. -/
theorem stacked_of_reaches {o : ScanOptions} {source : List Char} {s : State}
    (h : Reaches o { rest := source } s) : Stacked source s.pos s.frames := by
  have hboth : (∃ front, Reads source s front) ∧ Stacked source s.pos s.frames := by
    refine h.keeps
      (P := fun s => (∃ front, Reads source s front) ∧ Stacked source s.pos s.frames) ?_
      ⟨⟨[], reads_start source⟩, .nil 0⟩
    rintro s c cs hrest ⟨⟨front, hreads⟩, hstacked⟩
    refine ⟨⟨_, hreads.step hrest⟩, ?_⟩
    have hpos : (step o s c cs).pos = s.pos + byteSize (next o s c cs).1.text := pos_absorb ..
    have hholds : HoldsAt source s.pos (next o s c cs).1.text := by
      refine ⟨front, (next o s c cs).2, ?_, hreads.pos_eq.symm⟩
      rw [List.append_assoc, next_append, ← hrest]
      exact hreads.source_eq
    rw [hpos]
    exact hstacked.turn (turn_step o hstacked.depthPos c cs) hholds
  exact hboth.2

theorem pos_le_of_reaches {o : ScanOptions} {source : List Char} {s : State}
    (h : Reaches o { rest := source } s) : s.pos ≤ byteSize source := by
  obtain ⟨front, hreads⟩ := h.reads
  have hsize := congrArg byteSize hreads.source_eq
  rw [byteSize_append, ← hreads.pos_eq] at hsize
  omega

/-- What holds of the open frames at a state of the scan of a source. -/
structure Nested (source : List Char) (s : State) : Prop where
  /-- Outermost first, every other frame is a template, starting with the first. -/
  alternates : ∀ i f, s.frames.reverse[i]? = some f → (f.isTemplate = true ↔ i % 2 = 0)
  increasing : (s.frames.reverse.map Frame.start).Pairwise (· < ·)
  start_lt : ∀ f ∈ s.frames, f.start < s.pos
  marked : ∀ f ∈ s.frames, HoldsAt source f.start f.mark
  /-- The braces of an interpolation are fewer than the bytes since its start, and can be counted
  in 32 bits. -/
  depth : ∀ start depth, .interpolation start depth ∈ s.frames →
    1 ≤ depth ∧ depth < s.pos - start ∧ depth < 2 ^ 32

theorem nested_of_reaches {o : ScanOptions} {source : List Char} {s : State}
    (h : Reaches o { rest := source } s) (hsize : byteSize source < 2 ^ 32) : Nested source s where
  alternates := (stacked_of_reaches h).alternates
  increasing := (stacked_of_reaches h).increasing
  start_lt := (stacked_of_reaches h).start_lt
  marked := (stacked_of_reaches h).marked
  depth := by
    intro start depth hmem
    have hpos := (stacked_of_reaches h).depthPos start depth hmem
    have hroom := (stacked_of_reaches h).depth_lt start depth hmem
    have hend := pos_le_of_reaches h
    exact ⟨hpos, by omega, by omega⟩

/-! ### Faults -/

/-- Whether a fault was found on the way: it is about a string, a regular expression or a
comment. -/
def FoundOnTheWay (fault : Fault) : Prop :=
  fault.defect ≠ .template ∧ fault.defect ≠ .interpolation

theorem foundOnTheWay_note {s : State} (closed : Bool) {defect : Defect} (text : List Char)
    (h : ∀ fault ∈ s.faults, FoundOnTheWay fault)
    (hdefect : defect ≠ .template ∧ defect ≠ .interpolation) :
    ∀ fault ∈ s.note closed defect text, FoundOnTheWay fault := by
  unfold State.note
  split_ifs
  · exact h
  · intro fault hfault
    rcases List.mem_cons.mp hfault with rfl | hfault
    · exact hdefect
    · exact h fault hfault

theorem foundOnTheWay_absorb {s : State} (l : Lexeme) (rest : List Char)
    (h : ∀ fault ∈ s.faults, FoundOnTheWay fault) :
    ∀ fault ∈ (absorb s l rest).faults, FoundOnTheWay fault := by
  cases l with
  | quoted quote body closed => exact foundOnTheWay_note closed _ h (by simp)
  | regex body closed => exact foundOnTheWay_note closed _ h (by simp)
  | blockComment body closed => exact foundOnTheWay_note closed _ h (by simp)
  | _ => exact h

/-- A scan only takes note of faults about frames at its end. -/
theorem foundOnTheWay_run (o : ScanOptions) (source : List Char) :
    ∀ fault ∈ (run o { rest := source }).faults, FoundOnTheWay fault := by
  refine (reaches_run o { rest := source }).keeps
    (P := fun s => ∀ fault ∈ s.faults, FoundOnTheWay fault) ?_ (by simp)
  intro s c cs _ h
  exact foundOnTheWay_absorb _ _ h

theorem Frame.code_defect (f : Frame) :
    f.defect.code.id = if f.isTemplate = true then "DCM1002" else "DCM1003" := by
  cases f <;> rfl

end Scan

/-- How the diagnostics of a source end: with one for each frame that is open at the end,
outermost first, and none before is about a frame. -/
structure EndsNested (o : ScanOptions) (source : String) (found trailing : List Diagnostic) :
    Prop where
  diagnostics : (strip o source).diagnostics = found ++ trailing
  found : ∀ d ∈ found, d.code ≠ .openTemplate ∧ d.code ≠ .openInterpolation
  /-- One for each open frame, at its start. -/
  starts : trailing.map (·.span.start) =
    (Scan.run o { rest := source.toList }).frames.reverse.map Scan.Frame.start
  alternates : ∀ i d, trailing[i]? = some d →
    d.code.id = if i % 2 = 0 then "DCM1002" else "DCM1003"
  increasing : (trailing.map (·.span.start)).Pairwise (· < ·)

/-- The diagnostics of a source end with those on the open frames. -/
theorem exists_endsNested (o : ScanOptions) (source : String) :
    ∃ found trailing, EndsNested o source found trailing := by
  have hstacked := Scan.stacked_of_reaches (Scan.reaches_run o { rest := source.toList })
  have hfound := Scan.foundOnTheWay_run o source.toList
  have hstrip : (strip o source).diagnostics =
      (Scan.run o { rest := source.toList }).allFaults.map
        (·.locate (LineIndex.ofChars source.toList)) := rfl
  have hstarts : ((Scan.run o { rest := source.toList }).openFaults.map
      (·.locate (LineIndex.ofChars source.toList))).map (·.span.start) =
      (Scan.run o { rest := source.toList }).frames.reverse.map Scan.Frame.start := by
    rw [Scan.State.openFaults, List.map_map, List.map_map]
    rfl
  rw [Scan.State.allFaults, List.map_append] at hstrip
  refine ⟨_, _, hstrip, ?_, hstarts, ?_, hstarts ▸ hstacked.increasing⟩
  · intro d hd
    obtain ⟨fault, hfault, rfl⟩ := List.mem_map.mp hd
    have hway := hfound fault (List.mem_reverse.mp hfault)
    show fault.defect.code ≠ .openTemplate ∧ fault.defect.code ≠ .openInterpolation
    cases hdefect : fault.defect with
    | template => exact absurd hdefect hway.1
    | interpolation => exact absurd hdefect hway.2
    | _ => simp [Defect.code]
  · intro i d hd
    rw [Scan.State.openFaults, List.map_map, List.getElem?_map, Option.map_eq_some_iff] at hd
    obtain ⟨f, hf, rfl⟩ := hd
    have hcode := Scan.Frame.code_defect f
    simp only [hstacked.alternates i f hf] at hcode
    exact hcode

/-- **Frames are nested at every step of a scan, and what is never closed is reported from the
outside in.** However a source is built, the open frames alternate, start one after the other at
their marks, and count braces within bounds; a step closes only the frame it reads in; and the
last diagnostics are those on the frames that are open at the end. -/
theorem nested_frames (o : ScanOptions) (source : String) (h : source.utf8ByteSize < 2 ^ 32) :
    (∀ s, Scan.Reaches o { rest := source.toList } s → Scan.Nested source.toList s) ∧
    (∀ s c cs, Scan.Reaches o { rest := source.toList } s → s.rest = c :: cs →
      Scan.Turn s.pos (Scan.next o s c cs).1.text s.frames (Scan.step o s c cs).frames) ∧
    ∃ found trailing, EndsNested o source found trailing := by
  rw [← byteSize_toList] at h
  refine ⟨?_, ?_, exists_endsNested o source⟩
  · intro s hs
    exact Scan.nested_of_reaches hs h
  · intro s c cs hs _
    exact Scan.turn_step o (Scan.stacked_of_reaches hs).depthPos c cs

/-- A brace is open in an interpolation, the interpolation in a template. -/
theorem nested_frames_brace : "`$\x7b\x7b".utf8ByteSize < 2 ^ 32 ∧
    Scan.Nested "`$\x7b\x7b".toList
      { rest := [], pos := 4, out := ['{', '{', '$', backtick], tracker := ⟨'{', []⟩
        frames := [.interpolation 1 2, .template 0] } := by
  have hsize : "`$\x7b\x7b".utf8ByteSize < 2 ^ 32 := by decide
  exact ⟨hsize, (nested_frames {} _ hsize).1 _ (.step rfl (.step rfl (.step rfl (.refl _))))⟩

end Uncomment
