/-
# The braces that go

The option that takes braces away asks for no markup around a comment. It looks at what stands next
to the comment: an opening brace of code at top level before it, across spaces, tabs and pieces of
which nothing is left, and a closing brace after it, across spaces and tabs. So the body of a
function that holds nothing but a comment loses its braces as `{/* ... */}` in markup does, unless a
line feed or something else stands between them.

What is left of earlier pieces depends on which braces went before. Here the braces that go are told
from the source alone: exactly those of comments alone in braces, at top level, go, and each stays
that is not one of these (`strip_lone_comments`). Step by step, the scan erases the braces of the
comments alone in braces that it has read, and after a comment that it has read without taking the
braces along, no closing brace is next (`Scan.Sweeps`). Spaces and tabs that are erased do not
matter for this and are put back (`Scan.Piece.withBlanks`).

Key definitions: `Scan.Sweeps`, `Scan.Piece.withBlanks`.
Key theorems: `Scan.Sweeps.concat`, `Scan.Sweeps.takesBraces`, `Scan.Sweeps.step`,
`strip_lone_comments`.
-/
import Uncomment.Proofs.JsxOption
import Uncomment.Proofs.LoneSpans
import Uncomment.Proofs.Lookahead

namespace Uncomment

open Text

namespace Scan

/-! ### What a scan has seen -/

/-- What holds of the pieces that a scan has read up to a state, if spaces and tabs that are erased
are put back. -/
structure Sweeps (s : State) (ps : List Piece) : Prop extends LoneBracesErased ps where
  /-- Behind an opening brace that is still there, what leaves nothing but spaces and tabs up to the
  next one or up to the end vanishes. -/
  gaps : ∀ {front gap back}, ps = front ++ .top '{' :: (gap ++ back) → (∀ p ∈ gap, p.Idle) →
    (∀ p ∈ back.head?, p = .top '{') → Vanishing (gap.map Piece.restored)
  /-- After a comment that is alone behind an opening brace, no closing one is to be read next. -/
  declined : ∀ {front gap blanks body},
    ps.map Piece.restored = front ++ .top '{' :: (gap ++ .comment body :: blanks) →
    Vanishing gap → (∀ p ∈ blanks, p.IsBlank) → facesBrace s.rest = false

namespace Sweeps

variable {s s' : State} {ps : List Piece} {p : Piece}

theorem vanishing {before after : List Piece} (h : Sweeps s (before ++ .top '{' :: after))
    (hafter : ∀ p ∈ after, p.Idle) : Vanishing (after.map Piece.restored) := by
  have hread : before ++ .top '{' :: after = before ++ .top '{' :: (after ++ []) := by simp
  exact h.gaps hread hafter (by simp)

/-- A closing brace that is read is none of a comment alone in braces. -/
theorem not_suffix (h : Sweeps s ps) (hlive : p.erased = false) (hrest : s.rest = p.text ++ s'.rest)
    {span : List Piece} (hspan : LoneSpan span) : ¬ span <:+ (ps ++ [p]).map Piece.restored := by
  rintro ⟨front, hfront⟩
  obtain ⟨body, hgap, hblanks⟩ := hspan
  rw [bracedSpan_eq_concat, ← List.append_assoc, List.map_append] at hfront
  obtain ⟨hread, hlast⟩ := List.append_inj' hfront rfl
  obtain rfl : p = .top '}' :=
    Piece.eq_top_of_live (List.singleton_inj.mp hlast).symm hlive
  have hfaces := h.declined hread.symm hgap hblanks
  rw [hrest] at hfaces
  cases hfaces

/-- **A piece that is read as it stands.** A comment behind an opening brace must not face a closing
one, which would have gone with it. -/
theorem concat (h : Sweeps s ps) (hlive : p.erased = false) (hrest : s.rest = p.text ++ s'.rest)
    (hcomment : ∀ {body before after}, p = .comment body → ps = before ++ .top '{' :: after →
      (∀ q ∈ after, q.Idle) → facesBrace s'.rest = false) :
    Sweeps s' (ps ++ [p]) := by
  have hrestored := Piece.restored_of_live hlive
  refine ⟨h.toLoneBracesErased.concat hlive fun hspan => h.not_suffix hlive hrest hspan, ?_, ?_⟩
  · intro front gap back hsplit hgap hback
    rcases List.eq_nil_or_concat back with rfl | ⟨back, x, rfl⟩
    · rcases List.eq_nil_or_concat gap with rfl | ⟨gap, x, rfl⟩
      · exact .nil
      · have hparts : ps ++ [p] = (front ++ .top '{' :: (gap ++ [])) ++ [x] := by
          simpa using hsplit
        obtain ⟨hps, hlast⟩ := List.append_inj' hparts rfl
        obtain rfl := List.singleton_inj.mp hlast
        rw [List.concat_eq_append, List.forall_mem_append, List.forall_mem_singleton] at hgap
        rw [List.concat_eq_append, List.map_append]
        exact .idle (h.gaps hps hgap.1 (by simp)) (hrestored ▸ hgap.2)
    · have hparts : ps ++ [p] = (front ++ .top '{' :: (gap ++ back)) ++ [x] := by
        simpa using hsplit
      obtain ⟨hps, -⟩ := List.append_inj' hparts rfl
      refine h.gaps hps hgap fun q hq => hback q ?_
      cases back with
      | nil => cases hq
      | cons y back => exact hq
  · intro front gap blanks body hread hgap hblanks
    rw [List.map_append, List.map_singleton, hrestored] at hread
    rcases List.eq_nil_or_concat blanks with rfl | ⟨blanks, x, rfl⟩
    · have hparts : ps.map Piece.restored ++ [p] =
          (front ++ .top '{' :: gap) ++ [.comment body] := by simpa using hread
      obtain ⟨hps, hlast⟩ := List.append_inj' hparts rfl
      obtain ⟨before, after, hsplit, -, -, hidle⟩ := h.exists_open hps hgap
      exact hcomment (List.singleton_inj.mp hlast) hsplit hidle
    · have hparts : ps.map Piece.restored ++ [p] =
          (front ++ .top '{' :: (gap ++ .comment body :: blanks)) ++ [x] := by simpa using hread
      obtain ⟨hps, hlast⟩ := List.append_inj' hparts rfl
      rw [List.concat_eq_append, List.forall_mem_append, List.forall_mem_singleton] at hblanks
      obtain ⟨c, hc, hx⟩ := hblanks.2
      obtain rfl : p = .top c := (List.singleton_inj.mp hlast).trans hx
      have hfaces := h.declined hps hgap hblanks.1
      rw [hrest] at hfaces
      rwa [facesBrace, Piece.text, Piece.top, Lexeme.text, List.singleton_append,
        List.dropWhile_cons_of_pos hc] at hfaces

/-- What leaves nothing but spaces and tabs behind an opening brace vanishes also when a comment
takes braces along. If these are among it, it vanishes with the comment. -/
theorem gaps_taken {before after blanks front gap back : List Piece} {body : List Char}
    (h : Sweeps s (before ++ .top '{' :: after)) (hafter : ∀ p ∈ after, p.Idle)
    (hblanks : ∀ p ∈ blanks, p.IsBlank)
    (hsplit : before ++ (Piece.top '{').strike :: (after ++ takenTail body blanks) =
      front ++ .top '{' :: (gap ++ back))
    (hgap : ∀ p ∈ gap, p.Idle) (hback : ∀ p ∈ back.head?, p = .top '{') :
    Vanishing (gap.map Piece.restored) := by
  have hnone : .top '{' ∉ after ++ takenTail body blanks := top_notMem_taken hafter hblanks
  rcases append_eq_append_cons hsplit with ⟨mid, rfl, hrest⟩ | ⟨mid, -, htail⟩
  · rcases append_eq_append_cons hrest with ⟨mid', rfl, hlast⟩ | ⟨mid', rfl, rfl⟩
    · -- the braces are in the gap, which leads up to the end
      obtain rfl : back = [] := by
        cases back with
        | nil => rfl
        | cons q back =>
          obtain rfl := hback q rfl
          exact absurd (hlast ▸ by simp) hnone
      rw [List.append_nil] at hlast
      rw [← hlast, List.forall_mem_append, List.forall_mem_cons, List.forall_mem_append] at hgap
      obtain ⟨hmid, -, -, htaken⟩ := hgap
      have hfeed : '\n' ∉ body := by
        rcases htaken (.comment body) (by simp [takenTail]) with hnil | ⟨c, -, hc⟩
        · simpa [List.count_eq_zero] using hnil
        · cases hc
      have hread : front ++ .top '{' :: mid ++ .top '{' :: after =
          front ++ .top '{' :: (mid ++ .top '{' :: after) := by simp
      rw [← hlast, List.map_append, restored_taken after body hblanks]
      exact .braces (h.gaps hread hmid (by simp)) (h.vanishing hafter) hfeed hblanks
    · -- the gap ends before the braces
      cases mid' with
      | nil =>
        have hbrace := hback _ rfl
        cases hbrace
      | cons q mid' =>
        have hread : front ++ .top '{' :: (gap ++ q :: mid') ++ .top '{' :: after =
            front ++ .top '{' :: (gap ++ (q :: mid' ++ .top '{' :: after)) := by simp
        exact h.gaps hread hgap hback
  · refine absurd ?_ hnone
    rcases List.cons_eq_append_iff.mp htail with ⟨-, hbrace⟩ | ⟨mid, -, hrest⟩
    · cases (List.cons.inj hbrace).1
    · rw [hrest]
      simp

/-- **A comment that takes its braces along.** -/
theorem takesBraces {before after blanks : List Piece} {body : List Char}
    (h : Sweeps s (before ++ .top '{' :: after)) (hafter : ∀ p ∈ after, p.Idle)
    (hblanks : ∀ p ∈ blanks, p.IsBlank) :
    Sweeps s' (before ++ (Piece.top '{').strike :: (after ++ takenTail body blanks)) := by
  refine ⟨h.toLoneBracesErased.takesBraces hafter (h.vanishing hafter) hblanks,
    h.gaps_taken hafter hblanks, ?_⟩
  intro front gap blanks' body' hread hgap hblanks'
  have hends : before.map Piece.restored ++
      .top '{' :: (after.map Piece.restored ++ .comment body :: blanks) ++ [.top '}'] =
      (front ++ .top '{' :: gap) ++ .comment body' :: blanks' := by
    rw [List.map_append, restored_taken after body hblanks, bracedSpan_eq_concat] at hread
    simpa using hread
  exact absurd hends (ne_of_closed hblanks')

end Sweeps

/-! ### Spaces and tabs put back -/

namespace Piece

variable {p : Piece}

/-- A piece that is not erased if it is a space or tab at top level. -/
def withBlanks (p : Piece) : Piece :=
  if p.restored = .top ' ' ∨ p.restored = .top '\t' then p.restored else p

@[simp] theorem restored_withBlanks (p : Piece) : p.withBlanks.restored = p.restored := by
  unfold withBlanks
  split_ifs <;> rfl

@[simp] theorem lexeme_withBlanks (p : Piece) : p.withBlanks.lexeme = p.lexeme := by
  unfold withBlanks
  split_ifs <;> rfl

/-- A piece that leaves nothing is left as it is when code is erased. -/
theorem strike_of_leaves_nil (h : p.leaves = []) : p.strike = p := by
  unfold strike
  split
  · next c hcode =>
    have herased := erased_of_leaves_nil h hcode
    cases p
    exact congrArg _ herased.symm
  · rfl

theorem withBlanks_of_isBlank (h : p.restored.IsBlank) : p.withBlanks = p.restored := by
  obtain ⟨c, hc, htop⟩ := h
  rcases eq_of_isSpaceOrTab hc with rfl | rfl
  · exact if_pos (Or.inl htop)
  · exact if_pos (Or.inr htop)

theorem withBlanks_of_not_isBlank (h : ¬ p.restored.IsBlank) : p.withBlanks = p := by
  refine if_neg (not_or.mpr ⟨fun htop => h ⟨' ', rfl, htop⟩, fun htop => h ⟨'\t', rfl, htop⟩⟩)

theorem withBlanks_of_live (h : p.erased = false) : p.withBlanks = p := by
  by_cases hblank : p.restored.IsBlank
  · rw [withBlanks_of_isBlank hblank, restored_of_live h]
  · exact withBlanks_of_not_isBlank hblank

theorem withBlanks_of_code {c : Char} (hc : isSpaceOrTab c = false) (h : p.lexeme = .code c) :
    p.withBlanks = p := by
  refine withBlanks_of_not_isBlank ?_
  rintro ⟨d, hd, htop⟩
  obtain rfl : c = d := by simpa [h] using lexeme_of_restored htop
  rw [hc] at hd
  cases hd

theorem idle_withBlanks : p.withBlanks.Idle ↔ p.Idle := by
  by_cases hblank : p.restored.IsBlank
  · rw [withBlanks_of_isBlank hblank]
    exact iff_of_true (Or.inr hblank) (.of_restored (Or.inr hblank))
  · rw [withBlanks_of_not_isBlank hblank]

/-- Erasing a piece that leaves nothing but a space or tab makes no difference then. -/
theorem withBlanks_strike (h : p.Idle) : p.strike.withBlanks = p.withBlanks := by
  by_cases hblank : p.restored.IsBlank
  · rw [withBlanks_of_isBlank hblank, withBlanks_of_isBlank (by simpa using hblank),
      restored_strike]
  · rcases h with hnil | ⟨c, hc, rfl⟩
    · rw [strike_of_leaves_nil hnil]
    · exact absurd ⟨c, hc, rfl⟩ hblank

end Piece

theorem restored_map_withBlanks (ps : List Piece) :
    (ps.map Piece.withBlanks).map Piece.restored = ps.map Piece.restored := by
  rw [List.map_map]
  exact List.map_congr_left fun p _ => p.restored_withBlanks

/-- Of which braces are erased nothing changes if spaces and tabs are put back. -/
theorem LoneBracesErased.of_withBlanks {ps : List Piece}
    (h : LoneBracesErased (ps.map Piece.withBlanks)) : LoneBracesErased ps := by
  have herased : ∀ {p : Piece} {c : Char}, isSpaceOrTab c = false →
      (p.withBlanks.erased = true ∧ p.withBlanks.lexeme = .code c ↔
        p.erased = true ∧ p.lexeme = .code c) := by
    intro p c hc
    rw [p.lexeme_withBlanks]
    exact and_congr_left fun hcode => by rw [Piece.withBlanks_of_code hc hcode]
  constructor
  · rintro front p back rfl
    have hopening := h.opening List.map_append
    rwa [herased (by decide), ← List.map_cons, restored_map_withBlanks] at hopening
  · rintro front p back rfl
    have hclosing := h.closing List.map_append
    rwa [herased (by decide), ← List.map_singleton, ← List.map_append,
      restored_map_withBlanks] at hclosing

theorem map_strike_withBlanks {ps : List Piece} (h : ∀ p ∈ ps, p.Idle) :
    (ps.map Piece.strike).map Piece.withBlanks = ps.map Piece.withBlanks := by
  rw [List.map_map]
  exact List.map_congr_left fun p hp => Piece.withBlanks_strike (h p hp)

theorem map_withBlanks_of_isBlank {blanks : List Piece} (h : ∀ p ∈ blanks, p.IsBlank) :
    blanks.map Piece.withBlanks = blanks := by
  refine (List.map_congr_left fun p hp => ?_).trans (List.map_id blanks)
  obtain ⟨c, -, rfl⟩ := h p hp
  exact Piece.withBlanks_of_live rfl

/-! ### A scan that takes braces away -/

/-- Of a comment that takes its braces along, only the braces are erased if spaces and tabs are put
back. -/
theorem TakesBraces.sweeps {s s' : State} {body : List Char} {blanks ps qs : List Piece}
    (htakes : TakesBraces body blanks ps qs) (hblanks : ∀ p ∈ blanks, p.IsBlank)
    (h : Sweeps s (ps.map Piece.withBlanks)) : Sweeps s' (qs.map Piece.withBlanks) := by
  obtain ⟨-, hgap, hgap'⟩ := htakes
  rename_i before gap gap'
  have hread : (before ++ gap ++ .top '{' :: gap').map Piece.withBlanks =
      (before ++ gap).map Piece.withBlanks ++ .top '{' :: gap'.map Piece.withBlanks := by
    rw [List.map_append, List.map_cons, Piece.withBlanks_of_live rfl]
  have hstruck : ∀ {c}, isSpaceOrTab c = false →
      (Piece.top c).strike.withBlanks = (Piece.top c).strike :=
    fun hc => Piece.withBlanks_of_code hc rfl
  have htaken : (before ++ (bracedSpan gap gap' body blanks).map Piece.strike).map
      Piece.withBlanks = (before ++ gap).map Piece.withBlanks ++ (Piece.top '{').strike ::
        (gap'.map Piece.withBlanks ++ takenTail body blanks) := by
    simp only [bracedSpan, takenTail, List.map_append, List.map_cons, List.map_nil,
      map_strike_withBlanks hgap, map_strike_withBlanks hgap',
      map_strike_withBlanks fun p hp => Or.inr (hblanks p hp), map_withBlanks_of_isBlank hblanks,
      hstruck (by decide : isSpaceOrTab '{' = false),
      hstruck (by decide : isSpaceOrTab '}' = false), Piece.strike_comment,
      Piece.withBlanks_of_live (show (Piece.comment body).erased = false from rfl)]
    simp
  rw [hread] at h
  rw [htaken]
  refine h.takesBraces ?_ hblanks
  rw [List.forall_mem_map]
  exact fun p hp => Piece.idle_withBlanks.mpr (hgap' p hp)

theorem frames_of_topLevel {s : State} (h : s.reading.place = .topLevel) : s.frames = [] := by
  unfold Reading.place State.reading at h
  match hframes : s.frames with
  | [] => rfl
  | .template _ :: _ =>
    rw [hframes] at h
    cases h
  | .interpolation _ _ :: _ =>
    rw [hframes] at h
    cases h

/-- What pieces leave ends in an opening brace if nothing but spaces and tabs is left behind it. -/
theorem followsBrace_of_withBlanks {ps before after : List Piece}
    (h : ps.map Piece.withBlanks = before ++ .top '{' :: after) (hafter : ∀ p ∈ after, p.Idle) :
    followsBrace (leavesOf ps).reverse = true := by
  obtain ⟨front, tail, rfl, -, htail⟩ := List.map_eq_append_iff.mp h
  obtain ⟨p, gap, rfl, hp, rfl⟩ := List.map_eq_cons_iff.mp htail
  rw [List.forall_mem_map] at hafter
  have hgap : ∀ q ∈ gap, q.Idle := fun q hq => Piece.idle_withBlanks.mp (hafter q hq)
  obtain rfl : p = .top '{' := by
    rw [← hp]
    refine (Piece.withBlanks_of_code (c := '{') (by decide) ?_).symm
    rw [← p.lexeme_withBlanks, hp]
    rfl
  have hblank : ∀ c ∈ (leavesOf gap).reverse, isSpaceOrTab c = true := fun c hc =>
    blank_of_idle hgap c (List.mem_reverse.mp hc)
  have hout : (leavesOf (front ++ .top '{' :: gap)).reverse =
      (leavesOf gap).reverse ++ '{' :: (leavesOf front).reverse := by simp
  rw [hout, followsBrace, List.dropWhile_append_of_pos hblank]
  rfl

/-- A comment behind an opening brace that is read without it does not face a closing one. -/
theorem facesBrace_of_next {o : ScanOptions} (ho : o.jsxComments = true) {s : State} {c : Char}
    {cs body rest : List Char} (hframes : s.frames = []) (hbrace : followsBrace s.out = true)
    (hnext : next o s c cs = (.blockComment body true, rest)) : facesBrace rest = false := by
  rw [next_eq_joinBraces] at hnext
  generalize next keepBraces s c cs = read at hnext
  unfold State.joinBraces at hnext
  split at hnext
  · split_ifs at hnext with hgo
    · cases hnext
    · obtain ⟨-, rfl⟩ := Prod.mk.inj hnext
      simpa [hframes, ho, hbrace] using hgo
  · next hne => exact absurd hnext (hne body rest)

/-- **One step of a scan that takes braces away.** -/
theorem Sweeps.step {o : ScanOptions} (ho : o.jsxComments = true) {s t : State} {c : Char}
    {cs : List Char} {ps qs : List Piece} (hfollows : Follows s t ps) (hrest : s.rest = c :: cs)
    (hgrows : Grows o s t c cs ps qs) (h : Sweeps s (ps.map Piece.withBlanks)) :
    Sweeps (step o s c cs) (qs.map Piece.withBlanks) := by
  cases hgrows with
  | read hnext =>
    rw [List.map_append, List.map_singleton, Piece.withBlanks_of_live rfl]
    refine h.concat rfl ?_ ?_
    · rw [hrest, Scan.step, absorb_rest, hnext]
      exact (next_append keepBraces t c cs).symm
    · intro body before after hp hread hafter
      have hframes : s.frames = [] :=
        hfollows.frames.trans (frames_of_topLevel (congrArg Piece.place hp))
      have hlexeme : (next o s c cs).1 = .blockComment body true := by
        rw [hnext]
        exact congrArg Piece.lexeme hp
      have hbrace : followsBrace s.out = true := by
        rw [hfollows.out]
        exact followsBrace_of_withBlanks hread hafter
      rw [Scan.step, absorb_rest]
      exact facesBrace_of_next ho hframes hbrace (Prod.ext hlexeme rfl)
  | taken hblanks htakes => exact htakes.sweeps (isBlank_of_map hblanks) h

theorem sweeps_start (cs : List Char) : Sweeps { rest := cs } [] where
  opening h := by simp at h
  closing h := by simp at h
  gaps h := by simp at h
  declined h := by simp at h

/-! ### What is left -/

/-- Braces are taken away around a comment that is alone in them. -/
theorem Removal.holdsLoneComment {ps qs : List Piece} (h : Removal ps qs) :
    HoldsLoneComment ps := by
  obtain ⟨body, after, -, -, hgap', hblanks⟩ := h
  rename_i before gap gap' blanks
  refine ⟨_, .intro body (Vanishing.nil.append_idle gap' hgap') hblanks, before ++ gap, after, ?_⟩
  simp [bracedSpan]

theorem length_leavesOf_le (ps : List Piece) :
    (leavesOf ps).length ≤ (leavesOf (ps.map Piece.restored)).length := by
  induction ps with
  | nil => exact Nat.le_refl _
  | cons p ps ih =>
    have hp : p.leaves.length ≤ p.restored.leaves.length := by
      cases herased : p.erased with
      | false => rw [Piece.restored_of_live herased]
      | true => simp [Piece.leaves, herased]
    simp only [List.map_cons, leavesOf_cons, List.length_append]
    omega

/-- A text of which a brace is erased is shorter. -/
theorem LoneBracesErased.length_lt {ps : List Piece} (h : LoneBracesErased ps)
    (hlone : HoldsLoneComment (ps.map Piece.restored)) :
    (leavesOf ps).length < (leavesOf (ps.map Piece.restored)).length := by
  obtain ⟨span, hspan, before, after, hread⟩ := hlone
  obtain ⟨front, tail, rfl, -, htail⟩ :=
    List.map_eq_append_iff.mp (hread.symm.trans (List.append_assoc ..))
  cases tail with
  | nil =>
    obtain ⟨body, -, -⟩ := hspan
    cases htail
  | cons p back =>
    obtain ⟨hp, hbrace⟩ := (h.opening rfl).mpr ⟨span, hspan, after, htail.symm⟩
    have hfront := length_leavesOf_le front
    have hback := length_leavesOf_le back
    simp only [List.map_append, List.map_cons, leavesOf_append, leavesOf_cons, List.length_append,
      Piece.leaves, Piece.restored, hp, hbrace, if_true, Bool.false_eq_true, if_false,
      Lexeme.leaves, Lexeme.text, List.length_nil, List.length_singleton]
    change _ < (leavesOf (front.map Piece.restored)).length +
      (1 + (leavesOf (back.map Piece.restored)).length)
    omega

end Scan

/-- **Exactly the braces of comments alone in them go**, in markup or elsewhere. The text is what is
left of the pieces when these braces are erased, with spaces and tabs around them; each removal is
counted. It is the same as with the braces if and only if no comment is alone in braces. -/
theorem strip_lone_comments (source : String) :
    ((strip { jsxComments := true } source).text = (strip { jsxComments := false } source).text ↔
      ¬ Scan.HoldsLoneComment (Scan.pieces Scan.keepBraces { rest := source.toList })) ∧
    ∃ ps : List Scan.Piece,
      ps.map Scan.Piece.restored = Scan.pieces Scan.keepBraces { rest := source.toList } ∧
      (strip { jsxComments := true } source).text.toList = Scan.leavesOf ps ∧
      Scan.LoneBracesErased ps ∧
      (∀ p ∈ ps, p.erased = true →
        p.place = .topLevel ∧ ∃ c, c ∈ ['{', '}', ' ', '\t'] ∧ p.lexeme = .code c) ∧
      Repeated Scan.Removal (strip { jsxComments := true } source).stats.jsxComments
        (ps.map Scan.Piece.restored) ps := by
  obtain ⟨n, ps, hfollows, hremovals, hcount, hsweeps⟩ :=
    (Scan.follows_start source.toList).run_keeps (o := { jsxComments := true })
      (Scan.Sweeps.step rfl) (Scan.sweeps_start source.toList)
  have hn : (strip { jsxComments := true } source).stats.jsxComments = n :=
    hcount.trans (Nat.zero_add n)
  have herased : Scan.LoneBracesErased ps := .of_withBlanks hsweeps.toLoneBracesErased
  obtain ⟨-, -, hsound, hrestored⟩ := Scan.pieces_of_removals hremovals
  have hon : (strip { jsxComments := true } source).text.toList = Scan.leavesOf ps := by
    simp [strip, hfollows.out]
  have hoff : (strip { jsxComments := false } source).text.toList =
      Scan.leavesOf (Scan.pieces Scan.keepBraces { rest := source.toList }) := by
    simp [strip, ← Scan.leaves_pieces]
  refine ⟨?_, ps, hrestored, hon, herased, hsound, ?_⟩
  · rw [← String.toList_inj, hon, hoff]
    constructor
    · intro heq hlone
      rw [← hrestored] at heq hlone
      exact absurd (congrArg List.length heq) (Nat.ne_of_lt (herased.length_lt hlone))
    · intro hnone
      cases hremovals with
      | refl => rfl
      | head hstep _ => exact absurd hstep.holdsLoneComment hnone
  · rw [hrestored, hn]
    exact hremovals

/-- Braces that go with a comment of their own do not stand between a comment and its braces. -/
example : (strip {} "f(\x7b\x7b/*a*/\x7d /*b*/ \x7d)").text = "f()" := by decide +kernel

/-- In an interpolation the braces stay. -/
example : (strip {} "\x60$\x7bf(() => \x7b/*a*/\x7d)\x7d\x60").text =
    "\x60$\x7bf(() => \x7b\x7d)\x7d\x60" := by decide +kernel

/-- The braces of a block that holds nothing but a comment go without any markup in the text. -/
theorem text_ne_without_markup :
    let source := "try \x7b f() \x7d catch \x7b /* ignored */ \x7d\n"
    '<' ∉ source.toList ∧
      (strip { jsxComments := true } source).text = "try \x7b f() \x7d catch\n" ∧
      (strip { jsxComments := false } source).text = "try \x7b f() \x7d catch \x7b  \x7d\n" ∧
      (strip { jsxComments := true } source).text ≠
        (strip { jsxComments := false } source).text := by
  decide +kernel

end Uncomment
