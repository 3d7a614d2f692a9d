/-
# The pieces of a text

A scan cuts a text into pieces: the lexemes it reads, each with the kind of place at which it
stands. The pieces follow one another without a gap, and each fits the description of its
kind (`lexed_pieces`). What a piece leaves in the stripped text is its own text, unless it is
a comment or a character that was erased.

Key definitions: `Lexeme.leaves`, `Scan.Piece`, `Scan.Lexed`, `Scan.pieces`.
Key theorems: `Scan.text_pieces`, `Scan.lexed_pieces`, `Scan.out_absorb`.
-/
import Uncomment.Proofs.Lexical
import Uncomment.Strip

namespace Uncomment

open Text

namespace Lexeme

/-- What a lexeme leaves in the stripped text: of a line comment its terminator, of a block
comment as many line feeds as it holds, and everything else as it stands. -/
def leaves : Lexeme → List Char
  | lineComment _ ending => ending
  | blockComment body _ => List.replicate (body.count '\n') '\n'
  | jsxComment body _ => List.replicate (body.count '\n') '\n'
  | l => l.text

/-- What a lexeme adds to the counts. -/
def counts : Lexeme → Stats
  | directive _ => { directives := 1 }
  | lineComment _ _ => { lineComments := 1 }
  | blockComment _ _ => { blockComments := 1 }
  | jsxComment _ _ => { jsxComments := 1 }
  | _ => {}

end Lexeme

theorem Stats.add_def (s t : Stats) : s + t =
    ⟨s.lineComments + t.lineComments, s.blockComments + t.blockComments,
      s.jsxComments + t.jsxComments, s.directives + t.directives⟩ := rfl

theorem Stats.add_empty (s : Stats) : s + {} = s := rfl

theorem Stats.empty_add (s : Stats) : {} + s = s := by
  simp [Stats.add_def]

theorem Stats.add_assoc (s t u : Stats) : s + t + u = s + (t + u) := by
  simp [Stats.add_def, Nat.add_assoc]

namespace Scan

/-! ### Pieces -/

/-- A lexeme, the kind of place at which it stands, and whether it was erased. -/
structure Piece where
  place : Place
  lexeme : Lexeme
  erased : Bool := false
deriving DecidableEq, Repr

namespace Piece

/-- The characters that a piece was read from. -/
def text (p : Piece) : List Char := p.lexeme.text

/-- What a piece leaves in the stripped text. -/
def leaves (p : Piece) : List Char := if p.erased then [] else p.lexeme.leaves

/-- A piece as it is read, before anything is erased. -/
def restored (p : Piece) : Piece := { p with erased := false }

end Piece

/-- The text that some pieces were read from. -/
def textOf (ps : List Piece) : List Char := ps.flatMap Piece.text

/-- What some pieces leave in the stripped text. -/
def leavesOf (ps : List Piece) : List Char := ps.flatMap Piece.leaves

@[simp] theorem textOf_nil : textOf [] = [] := rfl

@[simp] theorem textOf_cons (p : Piece) (ps : List Piece) :
    textOf (p :: ps) = p.text ++ textOf ps := rfl

@[simp] theorem leavesOf_nil : leavesOf [] = [] := rfl

@[simp] theorem leavesOf_cons (p : Piece) (ps : List Piece) :
    leavesOf (p :: ps) = p.leaves ++ leavesOf ps := rfl

@[simp] theorem leavesOf_append (ps qs : List Piece) :
    leavesOf (ps ++ qs) = leavesOf ps ++ leavesOf qs := List.flatMap_append

/-- Whether some pieces, read one after the other, each fit the description of their kind at
the place that is reached. -/
inductive Lexed : Reading → List Piece → Prop where
  | nil (r : Reading) : Lexed r []
  | cons {r : Reading} {p : Piece} {ps : List Piece} :
      p.place = r.place → Fits r p.lexeme (textOf ps) → Lexed (r.after p.lexeme) ps →
      Lexed r (p :: ps)

/-- Each of some lexed pieces fits its kind somewhere. -/
theorem Lexed.fits {r : Reading} {ps : List Piece} (h : Lexed r ps) :
    ∀ p ∈ ps, ∃ r' rest, Fits r' p.lexeme rest := by
  induction h with
  | nil r => simp
  | cons hplace hfits _ ih =>
    rintro q (_ | ⟨_, hq⟩)
    · exact ⟨_, _, hfits⟩
    · exact ih q hq

theorem restored_eq {p q : Piece} (h : p.restored = q.restored) :
    p.place = q.place ∧ p.lexeme = q.lexeme := by
  simpa [Piece.restored] using h

theorem textOf_eq_of_restored {ps qs : List Piece}
    (h : ps.map Piece.restored = qs.map Piece.restored) : textOf ps = textOf qs := by
  have htext : ∀ xs : List Piece, textOf (xs.map Piece.restored) = textOf xs := fun xs => by
    rw [textOf, List.flatMap_map]
    rfl
  rw [← htext ps, h, htext qs]

/-- Whether pieces are lexed does not depend on what is erased. -/
theorem Lexed.of_restored {r : Reading} {ps qs : List Piece} (h : Lexed r ps)
    (hps : ps.map Piece.restored = qs.map Piece.restored) : Lexed r qs := by
  induction h generalizing qs with
  | nil r =>
    obtain rfl := List.map_eq_nil_iff.mp hps.symm
    exact .nil r
  | cons hplace hfits _ ih =>
    cases qs with
    | nil => simp at hps
    | cons q qs =>
      obtain ⟨hpq, htail⟩ := List.cons.inj hps
      obtain ⟨hplace', hlexeme⟩ := restored_eq hpq
      rw [textOf_eq_of_restored htail, hlexeme] at hfits
      rw [hlexeme] at ih
      exact .cons (hplace' ▸ hplace) hfits (ih htail)

/-! ### The pieces of a scan -/

/-- The pieces that a scan reads from a state on. -/
def pieces (o : ScanOptions) (s : State) : List Piece :=
  match _ : s.rest with
  | [] => []
  | c :: cs => ⟨s.reading.place, (next o s c cs).1, false⟩ :: pieces o (step o s c cs)
termination_by s.rest.length
decreasing_by simpa [*] using step_rest_length o s c cs

theorem pieces_nil (o : ScanOptions) {s : State} (h : s.rest = []) : pieces o s = [] := by
  rw [pieces]
  split
  · rfl
  · simp_all

theorem pieces_cons (o : ScanOptions) {s : State} {c : Char} {cs : List Char}
    (h : s.rest = c :: cs) :
    pieces o s =
      ⟨s.reading.place, (next o s c cs).1, false⟩ :: pieces o (step o s c cs) := by
  rw [pieces]
  split
  · simp_all
  · next hrest =>
    obtain ⟨rfl, rfl⟩ := List.cons.inj (hrest.symm.trans h)
    rfl

theorem run_nil (o : ScanOptions) {s : State} (h : s.rest = []) : run o s = s := by
  rw [run]
  split
  · rfl
  · simp_all

theorem run_cons (o : ScanOptions) {s : State} {c : Char} {cs : List Char}
    (h : s.rest = c :: cs) : run o s = run o (step o s c cs) := by
  rw [run]
  split
  · simp_all
  · next hrest =>
    obtain ⟨rfl, rfl⟩ := List.cons.inj (hrest.symm.trans h)
    rfl

/-- A fact about states holds of every state if it holds at the end of a text, and before a
step whenever it holds after it. -/
theorem scan_induction {P : State → Prop} (o : ScanOptions)
    (hnil : ∀ s, s.rest = [] → P s)
    (hcons : ∀ s c cs, s.rest = c :: cs → P (step o s c cs) → P s) (s : State) : P s := by
  cases h : s.rest with
  | nil => exact hnil s h
  | cons c cs => exact hcons s c cs h (scan_induction o hnil hcons (step o s c cs))
termination_by s.rest.length
decreasing_by simpa [h] using step_rest_length o s c cs

/-- The pieces of a text are the text. -/
theorem text_pieces (o : ScanOptions) (s : State) : textOf (pieces o s) = s.rest := by
  induction s using scan_induction o with
  | hnil s h => rw [pieces_nil o h, h, textOf_nil]
  | hcons s c cs h ih =>
    rw [pieces_cons o h, textOf_cons, ih, h, step, absorb_rest]
    exact next_append o s c cs

/-- The pieces of a text each fit the description of their kind. -/
theorem lexed_pieces (s : State) : Lexed s.reading (pieces keepBraces s) := by
  induction s using scan_induction keepBraces with
  | hnil s h =>
    rw [pieces_nil _ h]
    exact .nil _
  | hcons s c cs h ih =>
    rw [pieces_cons _ h]
    refine .cons rfl ?_ ?_
    · rw [text_pieces, step, absorb_rest]
      exact fits_next s c cs
    · rwa [step, reading_absorb] at ih

/-! ### What a lexeme does to the state -/

theorem feeds_eq (cs : List Char) : feeds cs = List.replicate (cs.count '\n') '\n' :=
  List.filter_eq '\n'

/-- What a lexeme leaves is written. -/
theorem out_absorb (s : State) {r : Reading} {l : Lexeme} {rest : List Char} (h : Fits r l rest) :
    (absorb s l rest).out = l.leaves.reverse ++ s.out := by
  cases h with
  | blockComment => simp [absorb, Lexeme.leaves, feeds_eq]
  | _ => rfl

/-- What a lexeme counts for is added to the counts. -/
theorem stats_absorb (s : State) (l : Lexeme) (rest : List Char) :
    (absorb s l rest).stats = s.stats + l.counts := by
  cases l <;> rfl

end Scan

end Uncomment
