/-
# Taking braces away

A block comment alone in a pair of braces at top level takes the braces away, together with
the spaces and tabs around the opening one and before the closing one. On pieces this is a
`Removal`: the characters are erased from the pieces between which the comment stands, and
nothing else is touched.

The opening brace is found in what was written, not in the pieces. What makes this safe is
that, at top level, the pieces at the end are `Loose`: going back over what they leave, one
meets code only, until a character that is neither a space, a tab nor an opening brace. So
the brace that is found is a piece of code (`Loose.split`).

Key definitions: `Repeated`, `Scan.Removal`, `Scan.TakesBraces`, `Scan.Loose`.
Key theorems: `Scan.Loose.split`, `Scan.Removal.sound`, `Scan.Removal.restored`.
-/
import Uncomment.Proofs.Pieces

namespace Uncomment

open Text

theorem eq_of_isSpaceOrTab {c : Char} (h : isSpaceOrTab c = true) : c = ' ' ∨ c = '\t' := by
  simpa [isSpaceOrTab] using h

/-- A step of some kind, taken a number of times. -/
inductive Repeated {α : Type} (r : α → α → Prop) : Nat → α → α → Prop where
  | refl (a : α) : Repeated r 0 a a
  | head {n : Nat} {a b c : α} : r a b → Repeated r n b c → Repeated r (n + 1) a c

theorem Repeated.trans {α : Type} {r : α → α → Prop} {m n : Nat} {a b c : α}
    (h : Repeated r m a b) (h' : Repeated r n b c) : Repeated r (m + n) a c := by
  induction h with
  | refl a => simpa using h'
  | head hstep _ ih =>
    rw [Nat.add_right_comm]
    exact .head hstep (ih h')

/-- A map that takes steps to steps takes repeated steps to as many. -/
theorem Repeated.map {α β : Type} {r : α → α → Prop} {t : β → β → Prop} {n : Nat} {a b : α}
    (f : α → β) (hf : ∀ a b, r a b → t (f a) (f b)) (h : Repeated r n a b) :
    Repeated t n (f a) (f b) := by
  induction h with
  | refl a => exact .refl (f a)
  | head hstep _ ih => exact .head (hf _ _ hstep) ih

/-- What every step keeps, repeated steps keep. -/
theorem Repeated.keeps {α : Type} {r : α → α → Prop} {P : α → Prop} {n : Nat} {a b : α}
    (hr : ∀ a b, r a b → P a → P b) (h : Repeated r n a b) (ha : P a) : P b := by
  induction h with
  | refl a => exact ha
  | head hstep _ ih => exact ih (hr _ _ hstep ha)

namespace Scan

/-! ### Removals -/

namespace Piece

/-- A character of code at top level. -/
def top (c : Char) : Piece := ⟨.topLevel, .code c, false⟩

/-- A block comment at top level, given by what follows its opening delimiter. -/
def comment (body : List Char) : Piece := ⟨.topLevel, .blockComment body true, false⟩

/-- A space or tab at top level. -/
def IsBlank (p : Piece) : Prop := ∃ c, isSpaceOrTab c = true ∧ p = top c

/-- A piece that may stand between a brace and a comment: it leaves nothing, or is a space or
tab at top level. -/
def Idle (p : Piece) : Prop := p.leaves = [] ∨ p.IsBlank

/-- A piece that is erased if it is code. -/
def strike (p : Piece) : Piece :=
  match p.lexeme with
  | .code _ => { p with erased := true }
  | _ => p

/-- Only braces, spaces and tabs of code at top level are erased. -/
def Sound (p : Piece) : Prop :=
  p.erased = true →
    p.place = .topLevel ∧ ∃ c, c ∈ ['{', '}', ' ', '\t'] ∧ p.lexeme = .code c

@[simp] theorem leaves_top (c : Char) : (top c).leaves = [c] := rfl

@[simp] theorem leaves_comment (body : List Char) :
    (comment body).leaves = List.replicate (body.count '\n') '\n' := rfl

@[simp] theorem strike_comment (body : List Char) : (comment body).strike = comment body := rfl

@[simp] theorem leaves_strike_top (c : Char) : (top c).strike.leaves = [] := rfl

@[simp] theorem restored_strike (p : Piece) : p.strike.restored = p.restored := by
  unfold strike
  split <;> rfl

/-- A character of code that leaves nothing is erased. -/
theorem erased_of_leaves_nil {p : Piece} {c : Char} (h : p.leaves = [])
    (hcode : p.lexeme = .code c) : p.erased = true := by
  by_contra hlive
  simp [leaves, hlive, hcode, Lexeme.leaves, Lexeme.text] at h

theorem leaves_strike_of_idle {p : Piece} (h : p.Idle) : p.strike.leaves = [] := by
  rcases h with h | ⟨c, -, rfl⟩
  · unfold strike
    split
    · rfl
    · exact h
  · rfl

theorem sound_strike_of_idle {p : Piece} (h : p.Idle) (hp : p.Sound) : p.strike.Sound := by
  rcases h with h | ⟨c, hc, rfl⟩
  · unfold strike
    split
    · next c hcode =>
      intro _
      exact hp (erased_of_leaves_nil h hcode)
    · exact hp
  · intro _
    refine ⟨rfl, c, ?_, rfl⟩
    rcases eq_of_isSpaceOrTab hc with rfl | rfl
    · decide
    · decide

end Piece

/-- A comment alone in braces: the opening brace with the pieces on both sides of it, the
comment, and what goes with it up to the closing brace. -/
def bracedSpan (gap gap' : List Piece) (body : List Char) (blanks : List Piece) : List Piece :=
  gap ++ .top '{' :: gap' ++ .comment body :: blanks ++ [.top '}']

/-- Whether what some pieces leave ends in neither a space nor a tab. -/
def EndsSolid (ps : List Piece) : Prop := ∀ c ∈ (leavesOf ps).getLast?, isSpaceOrTab c = false

/-- Taking the braces around a comment away: the code around the comment is erased. -/
inductive Removal : List Piece → List Piece → Prop where
  | intro {before gap gap' blanks : List Piece} (body : List Char) (after : List Piece) :
      EndsSolid before → (∀ p ∈ gap, p.Idle) → (∀ p ∈ gap', p.Idle) →
      (∀ p ∈ blanks, p.IsBlank) →
      Removal (before ++ bracedSpan gap gap' body blanks ++ after)
        (before ++ (bracedSpan gap gap' body blanks).map Piece.strike ++ after)

/-- What pieces become when a comment that is read after them takes the opening brace among them
away, and spaces, tabs and the closing brace after itself. -/
inductive TakesBraces (body : List Char) (blanks : List Piece) :
    List Piece → List Piece → Prop where
  | intro {before gap gap' : List Piece} :
      EndsSolid before → (∀ p ∈ gap, p.Idle) → (∀ p ∈ gap', p.Idle) →
      TakesBraces body blanks (before ++ gap ++ .top '{' :: gap')
        (before ++ (bracedSpan gap gap' body blanks).map Piece.strike)

theorem TakesBraces.removal {body : List Char} {blanks ps qs : List Piece}
    (h : TakesBraces body blanks ps qs) (hblanks : ∀ p ∈ blanks, p.IsBlank) (after : List Piece) :
    Removal (ps ++ .comment body :: (blanks ++ .top '}' :: after)) (qs ++ after) := by
  obtain ⟨hsolid, hgap, hgap'⟩ := h
  simpa [bracedSpan] using Removal.intro body after hsolid hgap hgap' hblanks

theorem leavesOf_eq_nil {ps : List Piece} (h : ∀ p ∈ ps, p.leaves = []) : leavesOf ps = [] :=
  List.flatMap_eq_nil_iff.mpr h

theorem leaves_of_struck {ps : List Piece} (h : ∀ p ∈ ps, p.Idle) :
    ∀ q ∈ ps.map Piece.strike, q.leaves = [] := by
  intro q hq
  obtain ⟨p, hp, rfl⟩ := List.mem_map.mp hq
  exact Piece.leaves_strike_of_idle (h p hp)

theorem leavesOf_strike_idle {ps : List Piece} (h : ∀ p ∈ ps, p.Idle) :
    leavesOf (ps.map Piece.strike) = [] :=
  leavesOf_eq_nil (leaves_of_struck h)

/-- Pieces that may stand between a brace and a comment leave spaces and tabs. -/
theorem blank_of_idle {ps : List Piece} (h : ∀ p ∈ ps, p.Idle) :
    ∀ c ∈ leavesOf ps, isSpaceOrTab c = true := by
  intro c hc
  obtain ⟨p, hp, hcp⟩ := List.mem_flatMap.mp hc
  rcases h p hp with hnil | ⟨d, hd, rfl⟩
  · simp [hnil] at hcp
  · rw [Piece.leaves_top, List.mem_singleton] at hcp
    exact hcp ▸ hd

theorem leavesOf_bracedSpan (gap gap' : List Piece) (body : List Char) (blanks : List Piece) :
    leavesOf (bracedSpan gap gap' body blanks) =
      leavesOf gap ++ '{' :: leavesOf gap' ++ List.replicate (body.count '\n') '\n' ++
        leavesOf blanks ++ ['}'] := by
  simp [bracedSpan]

/-- Of a comment alone in braces, only the line feeds are left. -/
theorem leavesOf_strike_bracedSpan {gap gap' blanks : List Piece} (body : List Char)
    (hgap : ∀ p ∈ gap, p.Idle) (hgap' : ∀ p ∈ gap', p.Idle) (hblanks : ∀ p ∈ blanks, p.Idle) :
    leavesOf ((bracedSpan gap gap' body blanks).map Piece.strike) =
      List.replicate (body.count '\n') '\n' := by
  simp [bracedSpan, leavesOf_strike_idle hgap, leavesOf_strike_idle hgap',
    leavesOf_strike_idle hblanks]

/-- A removal changes no piece but for what is erased. -/
theorem Removal.restored {ps qs : List Piece} (h : Removal ps qs) :
    qs.map Piece.restored = ps.map Piece.restored := by
  obtain ⟨body, after, -, -, -, -⟩ := h
  simp

/-- A removal erases only braces, spaces and tabs of code at top level. -/
theorem Removal.sound {ps qs : List Piece} (h : Removal ps qs) (hps : ∀ p ∈ ps, p.Sound) :
    ∀ q ∈ qs, q.Sound := by
  obtain ⟨body, after, -, hgap, hgap', hblanks⟩ := h
  rename_i before gap gap' blanks
  intro q hq
  rw [List.mem_append, List.mem_append] at hq
  rcases hq with (hq | hq) | hq
  · exact hps q (by simp [hq])
  · obtain ⟨p, hp, rfl⟩ := List.mem_map.mp hq
    have hsound : p.Sound := hps p (by simp [hp])
    simp only [bracedSpan, List.mem_append, List.mem_cons, List.not_mem_nil, or_false] at hp
    rcases hp with ((hp | rfl | hp) | rfl | hp) | rfl
    · exact Piece.sound_strike_of_idle (hgap p hp) hsound
    · exact fun _ => ⟨rfl, '{', by decide, rfl⟩
    · exact Piece.sound_strike_of_idle (hgap' p hp) hsound
    · exact hsound
    · exact Piece.sound_strike_of_idle (Or.inr (hblanks p hp)) hsound
    · exact fun _ => ⟨rfl, '}', by decide, rfl⟩
  · exact hps q (by simp [hq])

/-! ### Loose ends -/

/-- Whether a text ends in a character that stops a search for an opening brace. -/
def Stops (cs : List Char) : Prop :=
  ∃ front c, cs = front ++ [c] ∧ isSpaceOrTab c = false ∧ c ≠ '{'

/-- Going back over what some pieces leave, one meets code at top level only, until a character
that is neither a space, a tab nor an opening brace. -/
inductive Loose : List Piece → Prop where
  | nil : Loose []
  | stop {ps : List Piece} {p : Piece} : Stops p.leaves → Loose (ps ++ [p])
  | empty {ps : List Piece} {p : Piece} : Loose ps → p.leaves = [] → Loose (ps ++ [p])
  | code {ps : List Piece} (c : Char) : Loose ps → Loose (ps ++ [.top c])

/-- Pieces that leave nothing keep the end loose. -/
theorem Loose.append {ps : List Piece} (h : Loose ps) :
    ∀ qs : List Piece, (∀ q ∈ qs, q.leaves = []) → Loose (ps ++ qs)
  | [], _ => by simpa using h
  | q :: qs, hqs => by
    have hq : Loose (ps ++ [q]) := .empty h (hqs q (by simp))
    simpa using hq.append qs (fun p hp => hqs p (by simp [hp]))

theorem stops_of_feeds {n : Nat} (h : n ≠ 0) : Stops (List.replicate n '\n') := by
  obtain ⟨n, rfl⟩ := Nat.exists_eq_succ_of_ne_zero h
  exact ⟨List.replicate n '\n', '\n', List.replicate_succ', by decide, by decide⟩

/-- A block comment keeps the end loose. -/
theorem Loose.blockComment {ps : List Piece} (h : Loose ps) (place : Place) (body : List Char)
    (closed : Bool) : Loose (ps ++ [⟨place, .blockComment body closed, false⟩]) := by
  by_cases hfeeds : body.count '\n' = 0
  · exact .empty h (by simp [Piece.leaves, Lexeme.leaves, hfeeds])
  · exact .stop (stops_of_feeds hfeeds)

/-- A comment from which the braces were taken away keeps the end loose. -/
theorem Loose.strike_bracedSpan {before gap gap' blanks : List Piece} (h : Loose before)
    (body : List Char) (hgap : ∀ p ∈ gap, p.Idle) (hgap' : ∀ p ∈ gap', p.Idle)
    (hblanks : ∀ p ∈ blanks, p.Idle) :
    Loose (before ++ (bracedSpan gap gap' body blanks).map Piece.strike) := by
  have hbrace := Loose.empty (h.append _ (leaves_of_struck hgap)) (Piece.leaves_strike_top '{')
  have hopen := hbrace.append _ (leaves_of_struck hgap')
  have hcomment : Loose (_ ++ [Piece.comment body]) := hopen.blockComment .topLevel body true
  have hclose := Loose.empty (hcomment.append _ (leaves_of_struck hblanks))
    (Piece.leaves_strike_top '}')
  simpa [bracedSpan] using hclose

/-- The spaces and tabs at a loose end are code. -/
theorem Loose.gap {ps : List Piece} (h : Loose ps) :
    ∃ before gap, ps = before ++ gap ∧ (∀ p ∈ gap, p.Idle) ∧ Loose before ∧ EndsSolid before := by
  induction h with
  | nil => exact ⟨[], [], rfl, by simp, .nil, by simp [EndsSolid]⟩
  | @stop ps p hstop =>
    refine ⟨ps ++ [p], [], by simp, by simp, .stop hstop, ?_⟩
    obtain ⟨front, c, hleaves, hblank, -⟩ := hstop
    intro d hd
    obtain rfl : c = d := by simpa [hleaves] using hd
    exact hblank
  | @empty ps p _ hnil ih =>
    obtain ⟨before, gap, rfl, hgap, hloose, hsolid⟩ := ih
    refine ⟨before, gap ++ [p], by simp, ?_, hloose, hsolid⟩
    simpa [or_imp, forall_and] using ⟨hgap, Or.inl hnil⟩
  | @code ps c hps ih =>
    by_cases hc : isSpaceOrTab c = true
    · obtain ⟨before, gap, rfl, hgap, hloose, hsolid⟩ := ih
      refine ⟨before, gap ++ [.top c], by simp, ?_, hloose, hsolid⟩
      simpa [or_imp, forall_and] using ⟨hgap, Or.inr ⟨c, hc, rfl⟩⟩
    · refine ⟨ps ++ [.top c], [], by simp, by simp, .code c hps, ?_⟩
      intro d hd
      obtain rfl : c = d := by simpa using hd
      simpa using hc

/-- A brace at a loose end is code. -/
theorem Loose.brace {ps : List Piece} (h : Loose ps)
    (hlast : (leavesOf ps).getLast? = some '{') :
    ∃ before gap, ps = before ++ .top '{' :: gap ∧ (∀ p ∈ gap, p.leaves = []) ∧
      Loose before := by
  induction h with
  | nil => simp at hlast
  | @stop ps p hstop =>
    obtain ⟨front, c, hleaves, -, hne⟩ := hstop
    exact absurd (by simpa [hleaves] using hlast) hne
  | @empty ps p _ hnil ih =>
    obtain ⟨before, gap, rfl, hgap, hloose⟩ := ih (by simpa [hnil] using hlast)
    refine ⟨before, gap ++ [p], by simp, ?_, hloose⟩
    simpa [or_imp, forall_and] using ⟨hgap, hnil⟩
  | @code ps c hps _ =>
    obtain rfl : c = '{' := by simpa using hlast
    exact ⟨ps, [], rfl, by simp, hps⟩

theorem dropWhile_leavesOf {before gap : List Piece} (hgap : ∀ p ∈ gap, p.Idle)
    (hsolid : EndsSolid before) :
    (leavesOf (before ++ gap)).reverse.dropWhile isSpaceOrTab = (leavesOf before).reverse := by
  have hblank : ∀ c ∈ (leavesOf gap).reverse, isSpaceOrTab c = true := fun c hc =>
    blank_of_idle hgap c (List.mem_reverse.mp hc)
  rw [leavesOf_append, List.reverse_append, List.dropWhile_append_of_pos hblank]
  cases hrev : (leavesOf before).reverse with
  | nil => rfl
  | cons c cs =>
    have hlast : (leavesOf before).getLast? = some c := by
      rw [← List.head?_reverse, hrev, List.head?_cons]
    rw [List.dropWhile_cons_of_neg (by simp [hsolid c hlast])]

/-- **An opening brace that is found is code.** If what pieces with a loose end leave ends in an
opening brace, spaces and tabs apart, these characters are pieces of code at top level, and
taking them away leaves what the pieces before them leave. -/
theorem Loose.split {ps : List Piece} (h : Loose ps)
    (hbrace : followsBrace (leavesOf ps).reverse = true) :
    ∃ before gap gap', ps = before ++ gap ++ .top '{' :: gap' ∧ (∀ p ∈ gap, p.Idle) ∧
      (∀ p ∈ gap', p.Idle) ∧ Loose before ∧ EndsSolid before ∧
      dropBrace (leavesOf ps).reverse = (leavesOf before).reverse := by
  obtain ⟨front, gap₂, rfl, hgap₂, hfront, hsolid⟩ := h.gap
  have hdrop := dropWhile_leavesOf hgap₂ hsolid
  have hlast : (leavesOf front).getLast? = some '{' := by
    rw [← List.head?_reverse, ← hdrop]
    simpa [followsBrace] using hbrace
  obtain ⟨front, gap₁, rfl, hgap₁, hfront⟩ := hfront.brace hlast
  obtain ⟨before, gap, rfl, hgap, hbefore, hsolid'⟩ := hfront.gap
  refine ⟨before, gap, gap₁ ++ gap₂, by simp, hgap, ?_, hbefore, hsolid', ?_⟩
  · intro p hp
    rcases List.mem_append.mp hp with hp | hp
    · exact Or.inl (hgap₁ p hp)
    · exact hgap₂ p hp
  · have hfirst : (leavesOf (before ++ gap ++ .top '{' :: gap₁)).reverse =
        '{' :: (leavesOf (before ++ gap)).reverse := by
      simp [leavesOf_eq_nil hgap₁]
    rw [dropBrace, hdrop, hfirst, List.drop_one, List.tail_cons, dropWhile_leavesOf hgap hsolid']

end Scan

end Uncomment
