/-
# Comments alone in braces

A comment is alone in braces if before it stands an opening brace, across pieces that vanish, and
after it a closing one, across spaces and tabs. Spaces and tabs vanish, and so do pieces that leave
nothing, and braces that go themselves with a comment in which there is no line feed. All of this
is said of the pieces of a text as they are read, whatever becomes of them.

Among pieces of which some are erased, exactly the braces of such comments may be
(`LoneBracesErased`). This is kept when a piece is read as it stands (`LoneBracesErased.concat`),
unless it ends a comment alone in braces, and when a comment takes its braces along
(`LoneBracesErased.takesBraces`). What carries the second proof is that pieces that vanish close
each brace that they open, so that a brace before them is not one of theirs and is still there
(`LoneBracesErased.exists_open`).

Key definitions: `Scan.Vanishing`, `Scan.LoneSpan`, `Scan.HoldsLoneComment`,
`Scan.LoneBracesErased`.
Key theorems: `Scan.Vanishing.not_prefix`, `Scan.LoneBracesErased.concat`,
`Scan.LoneBracesErased.exists_open`, `Scan.LoneBracesErased.takesBraces`.
-/
import Uncomment.Proofs.Braces

namespace Uncomment

open Text

/-! ### Lists -/

/-- A member of two lists, one after the other, is in the first or in the second. -/
theorem append_eq_append_cons {α : Type} {xs ys front back : List α} {x : α}
    (h : xs ++ ys = front ++ x :: back) :
    (∃ mid, xs = front ++ x :: mid ∧ back = mid ++ ys) ∨
      ∃ mid, front = xs ++ mid ∧ ys = mid ++ x :: back := by
  rcases List.append_eq_append_iff.mp h with ⟨mid, hfront, hys⟩ | ⟨mid, hxs, hback⟩
  · exact Or.inr ⟨mid, hfront, hys⟩
  · cases mid with
    | nil => exact Or.inr ⟨[], by simpa using hxs.symm, hback.symm⟩
    | cons y mid =>
      obtain ⟨rfl, hback'⟩ := List.cons.inj hback
      exact Or.inl ⟨mid, hxs, hback'⟩

/-- The last member of a list that is not of some kind is settled. -/
theorem eq_of_last {α : Type} {P : α → Prop} {x y : α} {xs ys xs' ys' : List α}
    (h : xs ++ x :: ys = xs' ++ y :: ys') (hx : ¬ P x) (hy : ¬ P y) (hys : ∀ z ∈ ys, P z)
    (hys' : ∀ z ∈ ys', P z) : xs = xs' := by
  rcases append_eq_append_cons h with ⟨mid, rfl, rfl⟩ | ⟨mid, rfl, htail⟩
  · exact absurd (hys' x (by simp)) hx
  · cases mid with
    | nil => simp
    | cons z mid =>
      obtain ⟨rfl, rfl⟩ := List.cons.inj htail
      exact absurd (hys y (by simp)) hy

namespace Scan

/-! ### Comments alone in braces -/

/-- Whether pieces vanish when braces are taken away: they are spaces and tabs at top level, pieces
that leave nothing, and braces around comments without a line feed that are alone in them. -/
inductive Vanishing : List Piece → Prop where
  | nil : Vanishing []
  | idle {gap : List Piece} {p : Piece} : Vanishing gap → p.Idle → Vanishing (gap ++ [p])
  | braces {gap inner blanks : List Piece} {body : List Char} :
      Vanishing gap → Vanishing inner → '\n' ∉ body → (∀ p ∈ blanks, p.IsBlank) →
      Vanishing (gap ++ bracedSpan [] inner body blanks)

/-- A comment alone in braces, with the braces: after the opening brace pieces that vanish, then the
comment, and after it spaces and tabs. -/
inductive LoneSpan : List Piece → Prop where
  | intro {gap blanks : List Piece} (body : List Char) :
      Vanishing gap → (∀ p ∈ blanks, p.IsBlank) → LoneSpan (bracedSpan [] gap body blanks)

/-- Whether pieces hold a comment alone in braces. -/
def HoldsLoneComment (ps : List Piece) : Prop := ∃ span, LoneSpan span ∧ span <:+: ps

/-- Whether the braces that are erased are those of comments alone in braces: an opening brace if
such a comment with its braces starts there, a closing brace if one ends there. -/
structure LoneBracesErased (ps : List Piece) : Prop where
  opening : ∀ {front p back}, ps = front ++ p :: back →
    (p.erased = true ∧ p.lexeme = .code '{' ↔
      ∃ span, LoneSpan span ∧ span <+: (p :: back).map Piece.restored)
  closing : ∀ {front p back}, ps = front ++ p :: back →
    (p.erased = true ∧ p.lexeme = .code '}' ↔
      ∃ span, LoneSpan span ∧ span <:+ (front ++ [p]).map Piece.restored)

theorem Piece.Idle.ne_top {p : Piece} (h : p.Idle) {c : Char} (hc : isSpaceOrTab c = false) :
    p ≠ .top c := by
  rintro rfl
  rcases h with hnil | ⟨d, hd, htop⟩
  · cases hnil
  · obtain rfl : c = d := by simpa [Piece.top] using htop
    rw [hc] at hd
    cases hd

theorem Piece.IsBlank.ne_top {p : Piece} (h : p.IsBlank) {c : Char} (hc : isSpaceOrTab c = false) :
    p ≠ .top c :=
  Piece.Idle.ne_top (Or.inr h) hc

theorem Piece.IsBlank.ne_comment {p : Piece} (h : p.IsBlank) (body : List Char) :
    p ≠ .comment body := by
  obtain ⟨c, -, rfl⟩ := h
  simp [Piece.top, Piece.comment]

theorem bracedSpan_eq_concat (gap : List Piece) (body : List Char) (blanks : List Piece) :
    bracedSpan [] gap body blanks =
      .top '{' :: (gap ++ .comment body :: blanks) ++ [.top '}'] := by
  simp [bracedSpan]

theorem Vanishing.append_idle {gap : List Piece} (h : Vanishing gap) :
    ∀ ps : List Piece, (∀ p ∈ ps, p.Idle) → Vanishing (gap ++ ps)
  | [], _ => by simpa using h
  | p :: ps, hps => by
    have hp : Vanishing (gap ++ [p]) := .idle h (hps p List.mem_cons_self)
    simpa using hp.append_idle ps fun q hq => hps q (List.mem_cons_of_mem _ hq)

/-- A comment alone in braces starts with the opening one. -/
theorem LoneSpan.eq_of_prefix {span rest : List Piece} {p : Piece} (h : LoneSpan span)
    (hstarts : span <+: p :: rest) : p = .top '{' := by
  obtain ⟨body, -, -⟩ := h
  obtain ⟨after, hafter⟩ := hstarts
  exact (List.cons.inj hafter).1.symm

/-- A comment alone in braces ends with the closing one. -/
theorem LoneSpan.eq_of_suffix {span front : List Piece} {p : Piece} (h : LoneSpan span)
    (hsuffix : span <:+ front ++ [p]) : p = .top '}' := by
  obtain ⟨body, -, -⟩ := h
  obtain ⟨before, hbefore⟩ := hsuffix
  rw [bracedSpan_eq_concat, ← List.append_assoc] at hbefore
  exact (List.singleton_inj.mp (List.append_inj' hbefore rfl).2).symm

/-! ### Braces that are open -/

/-- The number of braces that are open after some pieces, if `n` are open before them and none is
closed too often. -/
def depth : Nat → List Piece → Option Nat
  | n, [] => some n
  | n, p :: ps =>
    if p = .top '{' then depth (n + 1) ps
    else if p = .top '}' then if n = 0 then none else depth (n - 1) ps
    else depth n ps

theorem depth_append (ps qs : List Piece) :
    ∀ n, depth n (ps ++ qs) = (depth n ps).bind fun m => depth m qs := by
  induction ps with
  | nil => exact fun n => rfl
  | cons p ps ih =>
    intro n
    simp only [List.cons_append, depth]
    split_ifs
    · exact ih (n + 1)
    · rfl
    · exact ih (n - 1)
    · exact ih n

theorem depth_of_ne {p : Piece} (hopen : p ≠ .top '{') (hclose : p ≠ .top '}') (n : Nat)
    (ps : List Piece) : depth n (p :: ps) = depth n ps := by
  rw [depth, if_neg hopen, if_neg hclose]

theorem depth_comment (body : List Char) {blanks : List Piece} (hblanks : ∀ p ∈ blanks, p.IsBlank)
    (n : Nat) (ps : List Piece) : depth n (.comment body :: (blanks ++ ps)) = depth n ps := by
  rw [depth_of_ne (by simp [Piece.top, Piece.comment]) (by simp [Piece.top, Piece.comment])]
  induction blanks with
  | nil => rfl
  | cons p blanks ih =>
    have hp := hblanks p List.mem_cons_self
    rw [List.cons_append, depth_of_ne (hp.ne_top (by decide)) (hp.ne_top (by decide))]
    exact ih fun q hq => hblanks q (List.mem_cons_of_mem _ hq)

/-- Pieces that vanish close each brace that they open, and no other. -/
theorem Vanishing.depth_eq {ps : List Piece} (h : Vanishing ps) : ∀ n, depth n ps = some n := by
  induction h with
  | nil => exact fun n => rfl
  | idle _ hp ih =>
    intro n
    rw [depth_append, ih, Option.bind_some,
      depth_of_ne (hp.ne_top (by decide)) (hp.ne_top (by decide))]
    rfl
  | @braces gap inner blanks body _ _ _ hblanks ihgap ihinner =>
    intro n
    have hspan : bracedSpan [] inner body blanks =
        .top '{' :: (inner ++ .comment body :: (blanks ++ [.top '}'])) := by simp [bracedSpan]
    rw [depth_append, ihgap, Option.bind_some, hspan, depth, if_pos rfl, depth_append, ihinner,
      Option.bind_some, depth_comment body hblanks]
    rfl

/-- An opening brace before pieces that vanish is not closed among them. -/
theorem Vanishing.not_prefix {gap span : List Piece} (h : Vanishing gap) (hspan : LoneSpan span) :
    ¬ span <+: .top '{' :: gap := by
  rintro ⟨after, hafter⟩
  obtain ⟨body, hinner, hblanks⟩ := hspan
  rename_i inner blanks
  have hgap : gap = inner ++ .comment body :: (blanks ++ .top '}' :: after) := by
    simpa [bracedSpan] using hafter.symm
  have hdepth := h.depth_eq 0
  rw [hgap, depth_append, hinner.depth_eq, Option.bind_some, depth_comment body hblanks] at hdepth
  cases hdepth

/-! ### Erased braces -/

theorem Piece.restored_of_live {p : Piece} (h : p.erased = false) : p.restored = p := by
  cases p
  exact congrArg _ h.symm

theorem Piece.eq_top_of_live {p : Piece} {c : Char} (h : p.restored = .top c)
    (hlive : p.erased = false) : p = .top c :=
  (restored_of_live hlive).symm.trans h

theorem Piece.lexeme_of_restored {p : Piece} {c : Char} (h : p.restored = .top c) :
    p.lexeme = .code c :=
  congrArg Piece.lexeme h

/-- A piece that leaves nothing but a space or tab as it is read leaves no more once erased. -/
theorem Piece.Idle.of_restored {p : Piece} (h : p.restored.Idle) : p.Idle := by
  cases herased : p.erased with
  | false => rwa [restored_of_live herased] at h
  | true => exact Or.inl (by simp [Piece.leaves, herased])

theorem Piece.idle_of_erased {p : Piece} (h : p.erased = true) : p.Idle :=
  Or.inl (by simp [Piece.leaves, h])

/-- The parts of a comment alone in braces, among pieces of which some are erased. -/
theorem exists_span_parts {span gap blanks : List Piece} {body : List Char}
    (h : span.map Piece.restored = bracedSpan [] gap body blanks) :
    ∃ p middle q spaces r, span = p :: (middle ++ q :: (spaces ++ [r])) ∧
      middle.map Piece.restored = gap ∧ q.restored = .comment body ∧
      spaces.map Piece.restored = blanks := by
  have hparts : span.map Piece.restored =
      .top '{' :: (gap ++ .comment body :: (blanks ++ [.top '}'])) := by simp [h, bracedSpan]
  obtain ⟨p, tail, rfl, -, htail⟩ := List.map_eq_cons_iff.mp hparts
  obtain ⟨middle, tail, rfl, hmiddle, htail⟩ := List.map_eq_append_iff.mp htail
  obtain ⟨q, tail, rfl, hq, htail⟩ := List.map_eq_cons_iff.mp htail
  obtain ⟨spaces, last, rfl, hspaces, hlast⟩ := List.map_eq_append_iff.mp htail
  obtain ⟨r, rfl, -⟩ := List.map_eq_singleton_iff.mp hlast
  exact ⟨p, middle, q, spaces, r, rfl, hmiddle, hq, hspaces⟩

/-- What is read after some pieces makes no comment alone in braces start among them, if none ends
in what is read. -/
theorem exists_prefix_append {xs ys : List Piece}
    (hnone : ∀ zs, zs ≠ [] → zs <+: ys → ¬ LoneSpan (xs ++ zs)) :
    (∃ span, LoneSpan span ∧ span <+: xs ++ ys) ↔ ∃ span, LoneSpan span ∧ span <+: xs := by
  constructor
  · rintro ⟨span, hspan, hstarts⟩
    rcases List.prefix_or_prefix_of_prefix hstarts (List.prefix_append xs ys) with h | ⟨zs, rfl⟩
    · exact ⟨span, hspan, h⟩
    · by_cases hzs : zs = []
      · exact ⟨_, hspan, by simp [hzs]⟩
      · exact absurd hspan (hnone zs hzs ((List.prefix_append_right_inj xs).mp hstarts))
  · rintro ⟨span, hspan, hstarts⟩
    exact ⟨span, hspan, hstarts.trans (List.prefix_append xs ys)⟩

namespace LoneBracesErased

variable {ps : List Piece}

/-- Both braces around a lone comment are erased. -/
theorem both (h : LoneBracesErased ps) {front inner back : List Piece} {p q : Piece}
    (hps : ps = front ++ p :: (inner ++ q :: back))
    (hspan : LoneSpan ((p :: (inner ++ [q])).map Piece.restored)) :
    p.erased = true ∧ q.erased = true := by
  have hps' : ps = (front ++ p :: inner) ++ q :: back := by simp [hps]
  refine ⟨((h.opening hps).mpr ⟨_, hspan, ?_⟩).1, ((h.closing hps').mpr ⟨_, hspan, ?_⟩).1⟩
  · exact ⟨back.map Piece.restored, by simp⟩
  · exact ⟨front.map Piece.restored, by simp⟩

/-- Pieces that vanish leave nothing but spaces and tabs once the braces among them are erased. -/
theorem idle {xs : List Piece} (h : LoneBracesErased ps) (hxs : Vanishing xs) :
    ∀ front gap back, ps = front ++ (gap ++ back) → gap.map Piece.restored = xs →
      ∀ p ∈ gap, p.Idle := by
  induction hxs with
  | nil =>
    intro front gap back _ hgap
    simp [List.map_eq_nil_iff.mp hgap]
  | idle _ hidle ih =>
    intro front gap back hps hgap
    obtain ⟨gap, last, rfl, hfirst, hlast⟩ := List.map_eq_append_iff.mp hgap
    obtain ⟨p, rfl, rfl⟩ := List.map_eq_singleton_iff.mp hlast
    rw [List.append_assoc] at hps
    rw [List.forall_mem_append, List.forall_mem_singleton]
    exact ⟨ih front gap _ hps hfirst, .of_restored hidle⟩
  | @braces xs inner blanks body _ hinner hfeed hblanks ihgap ihinner =>
    intro front gap back hps hgap
    obtain ⟨gap, span, rfl, hfirst, hspan⟩ := List.map_eq_append_iff.mp hgap
    have hlone : LoneSpan (span.map Piece.restored) := hspan ▸ .intro body hinner hblanks
    obtain ⟨x, middle, c, spaces, y, rfl, hmiddle, hc, hspaces⟩ := exists_span_parts hspan
    have hsplit : ps = (front ++ gap) ++ x :: ((middle ++ c :: spaces) ++ y :: back) := by
      simp [hps]
    obtain ⟨hopen, hclose⟩ := h.both hsplit (by simpa using hlone)
    have hcomment : c.Idle := by
      refine .of_restored (Or.inl ?_)
      simp [hc, List.count_eq_zero.mpr hfeed]
    have hblank : ∀ p ∈ spaces, p.Idle := fun p hp =>
      .of_restored (Or.inr (hblanks _ (hspaces ▸ List.mem_map_of_mem hp)))
    have hgap := ihgap front gap _ (by simpa using hps) hfirst
    have hmid := ihinner (front ++ gap ++ [x]) middle (c :: (spaces ++ y :: back))
      (by simp [hps]) hmiddle
    simp only [List.forall_mem_append, List.forall_mem_cons, List.not_mem_nil, IsEmpty.forall_iff,
      implies_true, and_true]
    exact ⟨hgap, Piece.idle_of_erased hopen, hmid, hcomment, hblank, Piece.idle_of_erased hclose⟩

/-- A piece that is read as it stands and ends no comment alone in braces. -/
theorem concat {p : Piece} (h : LoneBracesErased ps) (hlive : p.erased = false)
    (hnone : ∀ {span}, LoneSpan span → ¬ span <:+ (ps ++ [p]).map Piece.restored) :
    LoneBracesErased (ps ++ [p]) := by
  constructor
  · intro front q back hsplit
    rcases append_eq_append_cons hsplit with ⟨mid, hps, rfl⟩ | ⟨mid, hfront, hlast⟩
    · have hback : (q :: (mid ++ [p])).map Piece.restored =
          (q :: mid).map Piece.restored ++ [p.restored] := by simp
      rw [h.opening hps, hback]
      refine (exists_prefix_append ?_).symm
      intro zs hzs hstarts hspan
      obtain rfl : zs = [p.restored] := by simpa [List.prefix_cons_iff, hzs] using hstarts
      refine hnone hspan ⟨front.map Piece.restored, ?_⟩
      simp [hps]
    · obtain ⟨rfl, rfl, rfl⟩ : mid = [] ∧ q = p ∧ back = [] := by
        simpa [List.singleton_eq_append_iff] using hlast
      refine iff_of_false (by simp [hlive]) ?_
      rintro ⟨span, hspan, hstarts⟩
      refine hnone hspan ?_
      rcases List.prefix_cons_iff.mp hstarts with rfl | ⟨tail, rfl, htail⟩
      · exact List.nil_suffix
      · rw [List.prefix_nil.mp htail, List.map_append]
        exact List.suffix_append _ _
  · intro front q back hsplit
    rcases append_eq_append_cons hsplit with ⟨mid, hps, rfl⟩ | ⟨mid, rfl, hlast⟩
    · exact h.closing hps
    · obtain ⟨rfl, rfl, rfl⟩ : mid = [] ∧ q = p ∧ back = [] := by
        simpa [List.singleton_eq_append_iff] using hlast
      refine iff_of_false (by simp [hlive]) ?_
      rintro ⟨span, hspan, hsuffix⟩
      rw [List.append_nil] at hsuffix
      exact hnone hspan hsuffix

/-- A brace before pieces that vanish up to the end is still there. -/
theorem exists_open (h : LoneBracesErased ps) {front gap : List Piece}
    (hps : ps.map Piece.restored = front ++ .top '{' :: gap) (hgap : Vanishing gap) :
    ∃ before after, ps = before ++ .top '{' :: after ∧ before.map Piece.restored = front ∧
      after.map Piece.restored = gap ∧ ∀ p ∈ after, p.Idle := by
  obtain ⟨before, tail, rfl, hbefore, htail⟩ := List.map_eq_append_iff.mp hps
  obtain ⟨p, after, rfl, hp, hafter⟩ := List.map_eq_cons_iff.mp htail
  have hlive : p.erased = false := by
    rw [Bool.eq_false_iff]
    intro herased
    obtain ⟨span, hspan, hstarts⟩ := (h.opening rfl).mp ⟨herased, Piece.lexeme_of_restored hp⟩
    rw [List.map_cons, hp, hafter] at hstarts
    exact hgap.not_prefix hspan hstarts
  refine ⟨before, after, by rw [Piece.eq_top_of_live hp hlive], hbefore, hafter, ?_⟩
  exact h.idle hgap (before ++ [p]) after [] (by simp) hafter

end LoneBracesErased

/-! ### Braces that go -/

section Taken

variable {before after blanks : List Piece} {body : List Char}

/-- A comment, and what goes with it up to the closing brace, which is erased. -/
def takenTail (body : List Char) (blanks : List Piece) : List Piece :=
  .comment body :: blanks ++ [(Piece.top '}').strike]

theorem restored_of_isBlank (hblanks : ∀ p ∈ blanks, p.IsBlank) :
    blanks.map Piece.restored = blanks := by
  refine (List.map_congr_left fun p hp => ?_).trans (List.map_id blanks)
  obtain ⟨c, -, rfl⟩ := hblanks p hp
  rfl

theorem restored_takenTail (hblanks : ∀ p ∈ blanks, p.IsBlank) :
    (takenTail body blanks).map Piece.restored = .comment body :: blanks ++ [.top '}'] := by
  rw [takenTail, List.map_append, List.map_cons, restored_of_isBlank hblanks]
  rfl

theorem restored_taken (after : List Piece) (body : List Char) (hblanks : ∀ p ∈ blanks, p.IsBlank) :
    ((Piece.top '{').strike :: (after ++ takenTail body blanks)).map Piece.restored =
      bracedSpan [] (after.map Piece.restored) body blanks := by
  rw [List.map_cons, List.map_append, restored_takenTail hblanks]
  simp [bracedSpan, Piece.restored, Piece.strike, Piece.top]

theorem lexeme_ne_of_mem (hblanks : ∀ p ∈ blanks, p.IsBlank) {p : Piece}
    (h : p ∈ .comment body :: blanks) {c : Char} (hc : isSpaceOrTab c = false) :
    p.lexeme ≠ .code c := by
  rcases List.mem_cons.mp h with rfl | h
  · exact Lexeme.noConfusion
  · obtain ⟨d, hd, rfl⟩ := hblanks p h
    rintro ⟨⟩
    rw [hc] at hd
    cases hd

theorem takenTail_split {front back : List Piece} {p : Piece}
    (h : takenTail body blanks = front ++ p :: back) :
    p ∈ .comment body :: blanks ∨
      front = .comment body :: blanks ∧ p = (Piece.top '}').strike ∧ back = [] := by
  rcases append_eq_append_cons h with ⟨mid, hfirst, -⟩ | ⟨mid, rfl, hlast⟩
  · exact Or.inl (by simp [hfirst])
  · obtain ⟨rfl, rfl, rfl⟩ : mid = [] ∧ p = (Piece.top '}').strike ∧ back = [] := by
      simpa [List.singleton_eq_append_iff] using hlast
    exact Or.inr ⟨List.append_nil _, rfl, rfl⟩

/-- Where a piece stands when a comment takes its braces along: before the opening brace, at it,
between it and the comment, or after that. -/
theorem taken_split {front back tail : List Piece} {p q : Piece}
    (h : before ++ q :: (after ++ tail) = front ++ p :: back) :
    (∃ mid, before = front ++ p :: mid ∧ back = mid ++ q :: (after ++ tail)) ∨
      front = before ∧ p = q ∧ back = after ++ tail ∨
      (∃ mid mid', after = mid ++ p :: mid' ∧ front = before ++ q :: mid ∧ back = mid' ++ tail) ∨
      ∃ mid, front = before ++ q :: (after ++ mid) ∧ tail = mid ++ p :: back := by
  rcases append_eq_append_cons h with hbefore | ⟨mid, rfl, hrest⟩
  · exact Or.inl hbefore
  · rcases List.cons_eq_append_iff.mp hrest with ⟨rfl, hq⟩ | ⟨mid, rfl, hrest'⟩
    · obtain ⟨rfl, rfl⟩ := List.cons.inj hq
      exact Or.inr (Or.inl ⟨List.append_nil _, rfl, rfl⟩)
    · rcases append_eq_append_cons hrest' with ⟨mid', rfl, rfl⟩ | ⟨mid', rfl, rfl⟩
      · exact Or.inr (Or.inr (Or.inl ⟨mid, mid', rfl, rfl, rfl⟩))
      · exact Or.inr (Or.inr (Or.inr ⟨mid', rfl, rfl⟩))

/-- No opening brace is left behind the one of which the comment takes hold. -/
theorem top_notMem_taken (hafter : ∀ p ∈ after, p.Idle) (hblanks : ∀ p ∈ blanks, p.IsBlank) :
    .top '{' ∉ after ++ takenTail body blanks := by
  rw [List.mem_append, not_or]
  refine ⟨fun hmem => (hafter _ hmem).ne_top (by decide) rfl, fun hmem => ?_⟩
  obtain ⟨front, back, htail⟩ := List.append_of_mem hmem
  rcases takenTail_split htail with hmem | ⟨-, hbrace, -⟩
  · exact lexeme_ne_of_mem hblanks hmem (by decide) rfl
  · cases hbrace

/-- Pieces that end in a closing brace do not end in a comment with spaces and tabs after it. -/
theorem ne_of_closed {xs ys : List Piece} (hblanks : ∀ p ∈ blanks, p.IsBlank) :
    xs ++ [.top '}'] ≠ ys ++ .comment body :: blanks := by
  intro h
  obtain ⟨init, p, hp⟩ : ∃ init p, .comment body :: blanks = init ++ [p] :=
    ⟨_, _, (List.dropLast_concat_getLast (List.cons_ne_nil _ _)).symm⟩
  rw [hp, ← List.append_assoc] at h
  have hlast := List.singleton_inj.mp (List.append_inj' h rfl).2
  have hmem : p ∈ .comment body :: blanks := by simp [hp]
  exact lexeme_ne_of_mem hblanks hmem (by decide) (congrArg Piece.lexeme hlast.symm)

/-- A comment alone in braces that ends in what a comment takes along is that comment. -/
theorem exists_gap_of_loneSpan {xs zs : List Piece} (hblanks : ∀ p ∈ blanks, p.IsBlank)
    (hzs : zs ≠ []) (hstarts : zs <+: .comment body :: blanks ++ [.top '}'])
    (hspan : LoneSpan (xs ++ zs)) : ∃ gap, xs = .top '{' :: gap ∧ Vanishing gap := by
  rcases List.prefix_concat_iff.mp hstarts with rfl | hinner
  · have hwhole : xs ++ (.comment body :: blanks ++ [.top '}']) =
        xs ++ .comment body :: blanks ++ [.top '}'] := by simp
    rw [hwhole] at hspan
    generalize hread : xs ++ .comment body :: blanks ++ [.top '}'] = span at hspan
    obtain ⟨body', hgap, hblanks'⟩ := hspan
    rename_i gap blanks'
    rw [bracedSpan_eq_concat] at hread
    have hfirst : xs ++ .comment body :: blanks =
        (.top '{' :: gap) ++ .comment body' :: blanks' := (List.append_inj' hread rfl).1
    refine ⟨gap, ?_, hgap⟩
    exact eq_of_last hfirst (fun h => h.ne_comment body rfl) (fun h => h.ne_comment body' rfl)
      hblanks hblanks'
  · obtain ⟨front, z, rfl⟩ := List.eq_nil_or_concat zs |>.resolve_left hzs
    rw [List.concat_eq_append] at hspan hinner
    have hz : z = .top '}' := by
      rw [← List.append_assoc] at hspan
      exact hspan.eq_of_suffix List.suffix_rfl
    have hmem : z ∈ .comment body :: blanks := hinner.subset (by simp)
    rcases List.mem_cons.mp hmem with rfl | hmem
    · cases hz
    · exact absurd hz ((hblanks z hmem).ne_top (by decide))

namespace LoneBracesErased

variable {front back : List Piece} {p : Piece}

/-- Whether a comment alone in braces starts at a piece read before does not change, unless it is
the brace of which the comment takes hold. -/
theorem opening_append (h : LoneBracesErased (before ++ .top '{' :: after)) (body : List Char)
    (hafter : ∀ p ∈ after, p.Idle) (hblanks : ∀ p ∈ blanks, p.IsBlank)
    (hread : before ++ .top '{' :: after = front ++ p :: back)
    (hother : front.length ≠ before.length) :
    (p.erased = true ∧ p.lexeme = .code '{' ↔
      ∃ span, LoneSpan span ∧
        span <+: (p :: (back ++ takenTail body blanks)).map Piece.restored) := by
  have hback : (p :: (back ++ takenTail body blanks)).map Piece.restored =
      (p :: back).map Piece.restored ++ (.comment body :: blanks ++ [.top '}']) := by
    rw [← restored_takenTail hblanks, ← List.map_append]
    rfl
  rw [hback, h.opening hread]
  refine (exists_prefix_append fun zs hzs hstarts hspan => ?_).symm
  obtain ⟨gap, hgap, hvanishing⟩ := exists_gap_of_loneSpan hblanks hzs hstarts hspan
  have hrestored : (before ++ .top '{' :: after).map Piece.restored =
      front.map Piece.restored ++ .top '{' :: gap := by
    rw [hread, List.map_append, hgap]
  obtain ⟨before', after', hsplit, hfront, -, hidle⟩ := h.exists_open hrestored hvanishing
  have hbrace : ¬ (Piece.top '{').Idle := fun h => h.ne_top (by decide) rfl
  obtain rfl := eq_of_last hsplit hbrace hbrace hafter hidle
  exact hother (by simpa using congrArg List.length hfront.symm)

/-- **The braces of a comment alone in them are erased** when the comment takes them along. -/
theorem takesBraces (h : LoneBracesErased (before ++ .top '{' :: after))
    (hafter : ∀ p ∈ after, p.Idle) (hvanishing : Vanishing (after.map Piece.restored))
    (hblanks : ∀ p ∈ blanks, p.IsBlank) :
    LoneBracesErased (before ++ (Piece.top '{').strike :: (after ++ takenTail body blanks)) := by
  have hspan := restored_taken after body hblanks
  have hlone : LoneSpan (bracedSpan [] (after.map Piece.restored) body blanks) :=
    .intro body hvanishing hblanks
  constructor
  · intro front p back hsplit
    rcases taken_split hsplit with ⟨mid, rfl, rfl⟩ | ⟨-, rfl, rfl⟩ | ⟨mid, mid', rfl, rfl, rfl⟩ |
      ⟨mid, -, htail⟩
    · -- before the opening brace
      have hread : front ++ p :: mid ++ .top '{' :: after =
          front ++ p :: (mid ++ .top '{' :: after) := by simp
      have hiff := h.opening_append body hafter hblanks hread (by simp)
      simpa using hiff
    · -- the opening brace itself
      exact iff_of_true ⟨rfl, rfl⟩ ⟨_, hlone, hspan ▸ List.prefix_rfl⟩
    · -- between the opening brace and the comment
      have hread : before ++ .top '{' :: (mid ++ p :: mid') =
          (before ++ .top '{' :: mid) ++ p :: mid' := by simp
      exact h.opening_append body hafter hblanks hread (by simp)
    · -- the comment, and what goes with it
      have hne : p.lexeme ≠ .code '{' := by
        rcases takenTail_split htail with hmem | ⟨-, rfl, -⟩
        · exact lexeme_ne_of_mem hblanks hmem (by decide)
        · decide
      refine iff_of_false (fun herased => hne herased.2) ?_
      rintro ⟨span, hlone, hstarts⟩
      exact hne (Piece.lexeme_of_restored (hlone.eq_of_prefix hstarts))
  · intro front p back hsplit
    rcases taken_split hsplit with ⟨mid, rfl, rfl⟩ | ⟨rfl, rfl, -⟩ | ⟨mid, mid', rfl, rfl, rfl⟩ |
      ⟨mid, rfl, htail⟩
    · have hread : front ++ p :: mid ++ .top '{' :: after =
          front ++ p :: (mid ++ .top '{' :: after) := by simp
      exact h.closing hread
    · refine iff_of_false (by simp [Piece.strike, Piece.top]) ?_
      rintro ⟨span, hlone, hsuffix⟩
      rw [List.map_append] at hsuffix
      cases hlone.eq_of_suffix hsuffix
    · have hread : before ++ .top '{' :: (mid ++ p :: mid') =
          (before ++ .top '{' :: mid) ++ p :: mid' := by simp
      simpa using h.closing hread
    · rw [List.map_append]
      rcases takenTail_split htail with hmem | ⟨rfl, rfl, rfl⟩
      · have hne : p.lexeme ≠ .code '}' := lexeme_ne_of_mem hblanks hmem (by decide)
        refine iff_of_false (fun herased => hne herased.2) ?_
        rintro ⟨span, hlone, hsuffix⟩
        exact hne (Piece.lexeme_of_restored (hlone.eq_of_suffix hsuffix))
      · refine iff_of_true ⟨rfl, rfl⟩ ⟨_, hlone, ?_⟩
        rw [← hspan, takenTail]
        exact ⟨before.map Piece.restored, by simp⟩

end LoneBracesErased

end Taken

end Scan

end Uncomment
