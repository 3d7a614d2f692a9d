/-
# The states that a scan goes through

A scan takes a step for each lexeme. `Reaches` relates a state to every state that the scan
comes to from there, so a fact about each iteration is a fact about each state that is reached
from the start. What the steps keep holds of all of them (`Reaches.keeps`).

At each of them the source is what was read followed by what is still to be read, and the
offset is the size of what was read (`Reaches.reads`). A comment or literal is said to start at
an offset if the scan comes to that offset and reads it there (`Starts`).

Key definitions: `Scan.Reaches`, `Scan.Reads`, `Scan.Starts`.
Key theorems: `Scan.Reaches.keeps`, `Scan.Reaches.reads`, `Scan.reaches_run`.
-/
import Mathlib.Data.String.Basic
import Uncomment.Proofs.Simulation

namespace Uncomment

open Text

/-! ### Sizes -/

theorem byteSize_toList (text : String) : byteSize text.toList = text.utf8ByteSize := by
  have hlen : ∀ cs : List Char, byteSize cs = String.utf8Len cs := by
    intro cs
    induction cs with
    | nil => rfl
    | cons c cs ih => rw [byteSize_cons, String.utf8Len_cons, ih, Nat.add_comm]
  rw [hlen, ← String.utf8ByteSize_ofList, String.ofList_toList]

theorem byteSize_le_of_sublist {xs ys : List Char} (h : xs.Sublist ys) :
    byteSize xs ≤ byteSize ys := by
  induction h with
  | slnil => exact Nat.le_refl _
  | cons c _ ih =>
    rw [byteSize_cons]
    omega
  | cons_cons c _ ih =>
    rw [byteSize_cons, byteSize_cons]
    omega

/-- Two beginnings of a text that have the same size are the same. -/
theorem eq_of_byteSize_eq : ∀ {xs ys xs' ys' : List Char}, xs ++ ys = xs' ++ ys' →
    byteSize xs = byteSize xs' → xs = xs' ∧ ys = ys'
  | [], _, [], _, h, _ => ⟨rfl, h⟩
  | [], _, c :: _, _, _, hsize => by
    have := c.utf8Size_pos
    rw [byteSize_nil, byteSize_cons] at hsize
    omega
  | c :: _, _, [], _, _, hsize => by
    have := c.utf8Size_pos
    rw [byteSize_nil, byteSize_cons] at hsize
    omega
  | c :: xs, ys, d :: xs', ys', h, hsize => by
    rw [List.cons_append, List.cons_append, List.cons.injEq] at h
    obtain ⟨rfl, htail⟩ := h
    rw [byteSize_cons, byteSize_cons] at hsize
    obtain ⟨rfl, rfl⟩ := eq_of_byteSize_eq htail (Nat.add_left_cancel hsize)
    exact ⟨rfl, rfl⟩

namespace Scan

/-! ### Reaching a state -/

/-- Whether a scan comes from one state to another. -/
inductive Reaches (o : ScanOptions) : State → State → Prop where
  | refl (s : State) : Reaches o s s
  | step {s t : State} {c : Char} {cs : List Char} :
      s.rest = c :: cs → Reaches o (step o s c cs) t → Reaches o s t

/-- What every step keeps holds of every state that is reached. -/
theorem Reaches.keeps {o : ScanOptions} {P : State → Prop} {s t : State} (h : Reaches o s t)
    (hstep : ∀ s c cs, s.rest = c :: cs → P s → P (Scan.step o s c cs)) (hs : P s) : P t := by
  induction h with
  | refl s => exact hs
  | step hrest _ ih => exact ih (hstep _ _ _ hrest hs)

/-- A scan goes on from a state that it reaches. -/
theorem Reaches.run_eq {o : ScanOptions} {s t : State} (h : Reaches o s t) :
    run o s = run o t := by
  induction h with
  | refl s => rfl
  | step hrest _ ih => rw [run_cons o hrest, ih]

/-- A scan reaches its end. -/
theorem reaches_run (o : ScanOptions) (s : State) : Reaches o s (run o s) := by
  induction s using scan_induction o with
  | hnil s h =>
    rw [run_nil o h]
    exact .refl s
  | hcons s c cs h ih =>
    rw [run_cons o h]
    exact .step h ih

/-- What is still to be read is the end of what there was to be read. -/
theorem Reaches.suffix {o : ScanOptions} {s t : State} (h : Reaches o s t) :
    t.rest <:+ s.rest := by
  induction h with
  | refl s => exact List.suffix_rfl
  | @step s t c cs hrest _ ih =>
    have hnext : (Scan.step o s c cs).rest <:+ s.rest := by
      rw [hrest, ← next_append o s c cs, Scan.step, absorb_rest]
      exact List.suffix_append ..
    exact ih.trans hnext

/-! ### What was read -/

/-- Whether a scan of `source` has read `front`. -/
structure Reads (source : List Char) (s : State) (front : List Char) : Prop where
  source_eq : source = front ++ s.rest
  pos_eq : s.pos = byteSize front

theorem reads_start (source : List Char) : Reads source { rest := source } [] := ⟨rfl, rfl⟩

theorem Reads.absorb {source front : List Char} {s : State} (h : Reads source s front) {l : Lexeme}
    {rest : List Char} (hrest : s.rest = l.text ++ rest) :
    Reads source (absorb s l rest) (front ++ l.text) := by
  refine ⟨?_, ?_⟩
  · rw [absorb_rest, h.source_eq, hrest, List.append_assoc]
  · rw [pos_absorb, h.pos_eq, byteSize_append]

theorem Reads.step {o : ScanOptions} {source front : List Char} {s : State} {c : Char}
    {cs : List Char} (h : Reads source s front) (hrest : s.rest = c :: cs) :
    Reads source (step o s c cs) (front ++ (next o s c cs).1.text) :=
  h.absorb (hrest.trans (next_append o s c cs).symm)

/-- At every state, some beginning of the source has been read. -/
theorem Reaches.reads {o : ScanOptions} {source : List Char} {s : State}
    (h : Reaches o { rest := source } s) : ∃ front, Reads source s front := by
  refine h.keeps (P := fun s => ∃ front, Reads source s front) ?_ ⟨[], reads_start source⟩
  rintro s c cs hrest ⟨front, hreads⟩
  exact ⟨_, hreads.step hrest⟩

/-- What was read up to an offset is what the source holds up to there. -/
theorem Reads.eq {source front front' back : List Char} {s : State} (h : Reads source s front)
    (hsource : source = front' ++ back) (hpos : s.pos = byteSize front') :
    front = front' ∧ s.rest = back :=
  eq_of_byteSize_eq (h.source_eq.symm.trans hsource) (h.pos_eq.symm.trans hpos)

/-! ### The lexemes on the way -/

/-- A lexeme fits its kind, or is a comment at top level that takes braces with it. -/
theorem fits_or_jsx (o : ScanOptions) (s : State) (c : Char) (cs : List Char) :
    Fits s.reading (next o s c cs).1 (next o s c cs).2 ∨
      s.frames = [] ∧ ∃ body tail, (next o s c cs).1 = .jsxComment body tail := by
  rcases next_cases o s c cs with hsame | ⟨body, blanks, rest, hframes, -, -, -, hjsx, -⟩
  · left
    rw [hsame]
    exact fits_next s c cs
  · right
    exact ⟨hframes, body, blanks ++ ['}'], by rw [hjsx]⟩

/-- Whether the scan of a source comes to an offset and reads a lexeme of some kind there. -/
def Starts (o : ScanOptions) (source : String) (kind : Lexeme → Bool) (offset : Nat) : Prop :=
  ∃ s c cs, Reaches o { rest := source.toList } s ∧ s.pos = offset ∧ s.rest = c :: cs ∧
    kind (next o s c cs).1 = true

end Scan

end Uncomment
