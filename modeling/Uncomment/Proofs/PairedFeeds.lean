/-
# Texts in which every line feed has a carriage return

A text in which each line feed stands directly behind a carriage return stays so, but for one kind
of lexeme: a block comment that goes over several lines leaves line feeds alone. Anything else
keeps a line feed together with the carriage return before it. To see this of a text part by part,
one has to know of what comes before only whether it ends with a carriage return (`feedsPaired`).
What is written ends with one whenever what has been read does, and that is carried through the
pieces of a text (`feedsPaired_leavesOf`) and through the rows of a tidied one
(`feedsPaired_rows`).

Conversely, a text whose carriage returns all stand before line feeds holds no such comment if its
stripped text is of this kind: in front of the comment nothing is written that ends with a
carriage return.

Key definitions: `PairedFeeds`, `feedsPaired`, `NoSpanningComment`.
Key theorems: `Scan.feedsPaired_leavesOf`, `feedsPaired_rows`, `pairedFeeds_clean`.
-/
import Uncomment.Options
import Uncomment.Proofs.Restripping
import Uncomment.Proofs.TidyForm

namespace Uncomment

open Text

/-! ### Line feeds and the carriage returns before them -/

/-- Whether every line feed of a text stands directly behind a carriage return. -/
def PairedFeeds (cs : List Char) : Prop :=
  ∀ front back, cs = front ++ '\n' :: back → front.getLast? = some '\r'

/-- Whether a text ends with a carriage return; `before` says so of what comes before it. -/
def endsReturned (before : Bool) (cs : List Char) : Bool := cs.foldl (fun _ c => c = '\r') before

/-- Whether every line feed of a text stands directly behind a carriage return; `before` says
whether one comes right before the text. -/
def feedsPaired (before : Bool) : List Char → Bool
  | [] => true
  | c :: cs => (c ≠ '\n' || before) && feedsPaired (c = '\r') cs

section Parts

variable {before before' : Bool} {cs ds : List Char}

@[simp]
theorem endsReturned_nil : endsReturned before [] = before := rfl

@[simp]
theorem endsReturned_cons (c : Char) : endsReturned before (c :: cs) = endsReturned (c = '\r') cs :=
  rfl

@[simp]
theorem endsReturned_append :
    endsReturned before (cs ++ ds) = endsReturned (endsReturned before cs) ds := List.foldl_append

@[simp]
theorem feedsPaired_append :
    feedsPaired before (cs ++ ds) =
      (feedsPaired before cs && feedsPaired (endsReturned before cs) ds) := by
  induction cs generalizing before with
  | nil => rfl
  | cons c cs ih => simp [feedsPaired, ih, Bool.and_assoc]

theorem endsReturned_eq_true :
    endsReturned before cs = true ↔ cs.getLast? = some '\r' ∨ cs = [] ∧ before = true := by
  rcases List.eq_nil_or_concat' cs with rfl | ⟨front, c, rfl⟩
  · simp
  · simp

/-- More is paired behind a carriage return. -/
theorem feedsPaired_mono (hle : before = true → before' = true) (h : feedsPaired before cs = true) :
    feedsPaired before' cs = true := by
  cases cs with
  | nil => rfl
  | cons c cs =>
    simp only [feedsPaired, Bool.and_eq_true, Bool.or_eq_true] at h ⊢
    exact ⟨h.1.imp_right hle, h.2⟩

theorem endsReturned_mono (hle : before = true → before' = true)
    (h : endsReturned before cs = true) : endsReturned before' cs = true := by
  rw [endsReturned_eq_true] at h ⊢
  exact h.imp_right (And.imp_right hle)

@[simp]
theorem feedsPaired_feed : feedsPaired before ('\n' :: cs) = (before && feedsPaired false cs) := rfl

theorem feedsPaired_of_notMem (h : '\n' ∉ cs) : feedsPaired before cs = true := by
  induction cs generalizing before with
  | nil => rfl
  | cons c cs ih =>
    rw [List.mem_cons, not_or] at h
    simp [feedsPaired, Ne.symm h.1, ih h.2]

theorem feedsPaired_iff : feedsPaired before cs = true ↔
    ∀ front back, cs = front ++ '\n' :: back → endsReturned before front = true := by
  constructor
  · rintro h front back rfl
    simp only [feedsPaired_append, feedsPaired, Bool.and_eq_true] at h
    simpa using h.2.1
  · intro h
    induction cs generalizing before with
    | nil => rfl
    | cons c cs ih =>
      rw [feedsPaired, Bool.and_eq_true]
      refine ⟨?_, ih fun front back hcs => ?_⟩
      · by_cases hc : c = '\n'
        · simpa [hc] using h [] cs (by rw [hc, List.nil_append])
        · simp [hc]
      · exact h (c :: front) back (by rw [hcs, List.cons_append])

theorem feedsPaired_false_iff : feedsPaired false cs = true ↔ PairedFeeds cs := by
  simp only [feedsPaired_iff, endsReturned_eq_true, Bool.false_eq_true, and_false, or_false]
  rfl

instance : Decidable (PairedFeeds cs) := decidable_of_iff _ feedsPaired_false_iff

end Parts

theorem pairedReturns_cons {c : Char} {cs : List Char} :
    PairedReturns (c :: cs) ↔ (c = '\r' → cs.head? = some '\n') ∧ PairedReturns cs := by
  constructor
  · intro h
    refine ⟨?_, fun front back hcs => h (c :: front) back (by rw [hcs, List.cons_append])⟩
    rintro rfl
    exact h [] cs rfl
  · rintro ⟨hfirst, hrest⟩ front back hcs
    cases front with
    | nil =>
      obtain ⟨rfl, rfl⟩ := List.cons.inj hcs
      exact hfirst rfl
    | cons d front => exact hrest front back (List.cons.inj hcs).2

instance decidablePairedReturns : ∀ cs : List Char, Decidable (PairedReturns cs)
  | [] => isTrue (by simp [PairedReturns])
  | _ :: cs =>
    have := decidablePairedReturns cs
    decidable_of_iff _ pairedReturns_cons.symm

theorem PairedReturns.of_append {cs ds : List Char} (h : PairedReturns (cs ++ ds)) :
    PairedReturns ds := fun front back hds =>
  h (cs ++ front) back (by rw [hds, List.append_assoc])

/-! ### What lexemes leave -/

/-- Whether a lexeme is a block comment that goes over several lines. -/
def Lexeme.spansLines : Lexeme → Bool
  | blockComment body _ | jsxComment body _ => body.contains '\n'
  | _ => false

namespace Scan

section Lexemes

variable {r : Reading} {l : Lexeme} {rest : List Char} {before before' : Bool}

/-- **What a lexeme leaves is paired if its text is**, and ends with a carriage return if its text
does, unless nothing follows. -/
theorem Fits.paired (h : Fits r l rest) (hspan : l.spansLines = false)
    (hle : before = true → before' = true) (htext : feedsPaired before l.text = true) :
    feedsPaired before' l.leaves = true ∧ (rest ≠ [] →
      endsReturned before l.text = true → endsReturned before' l.leaves = true) := by
  cases h with
  | @lineComment body ending rest _ _ hend _ =>
    cases hend with
    | feed rest hlast =>
      -- the line feed that ends such a comment stands alone in the text
      have hreturned := feedsPaired_iff.mp htext ('/' :: '/' :: body) [] rfl
      simp [endsReturned_eq_true, hlast] at hreturned
    | crlf => exact ⟨rfl, fun _ => by simp [Lexeme.text, Lexeme.leaves]⟩
    | stop => exact ⟨rfl, fun hne => absurd rfl hne⟩
  | @blockComment body rest closed _ hbody =>
    have hleaves : (Lexeme.blockComment body closed).leaves = [] := by
      simpa [Lexeme.spansLines, Lexeme.leaves, List.count_eq_zero] using hspan
    rw [hleaves]
    refine ⟨rfl, fun hne hlast => ?_⟩
    cases hbody with
    | closed => simp [Lexeme.text] at hlast
    | stop => exact absurd rfl hne
  | _ => exact ⟨feedsPaired_mono hle htext, fun _ => endsReturned_mono hle⟩

/-- **A comment over several lines leaves a line feed alone**, and what a lexeme leaves ends with a
carriage return only before a line feed, if the carriage returns of the text are paired. -/
theorem Fits.paired_conv (h : Fits r l rest) (hreturns : PairedReturns (l.text ++ rest))
    (hbefore : before = true → (l.text ++ rest).head? = some '\n')
    (hleaves : feedsPaired before l.leaves = true) :
    l.spansLines = false ∧ (endsReturned before l.leaves = true → rest.head? = some '\n') := by
  have hverbatim : l.leaves = l.text → endsReturned before l.leaves = true →
      rest.head? = some '\n' := by
    intro heq hreturned
    rw [heq, endsReturned_eq_true] at hreturned
    rcases hreturned with hlast | ⟨hnil, -⟩
    · obtain ⟨front, hfront⟩ := List.getLast?_eq_some_iff.mp hlast
      exact hreturns front rest (by rw [hfront, List.append_assoc, List.singleton_append])
    · exact absurd hnil h.text_ne
  -- a comment starts with a slash, so no carriage return has been left right before it
  cases h with
  | lineComment _ _ hend _ =>
    obtain rfl : before = false := by simpa [Lexeme.text] using hbefore
    refine ⟨rfl, fun hreturned => ?_⟩
    cases hend <;> simp [Lexeme.leaves] at hreturned
  | @blockComment body rest closed _ hbody =>
    obtain rfl : before = false := by simpa [Lexeme.text] using hbefore
    have hnone : body.count '\n' = 0 := by
      by_contra hpos
      obtain ⟨n, hn⟩ := Nat.exists_eq_succ_of_ne_zero hpos
      simp [Lexeme.leaves, hn, List.replicate_succ] at hleaves
    refine ⟨by simpa [Lexeme.spansLines] using List.count_eq_zero.mp hnone, ?_⟩
    simp [Lexeme.leaves, hnone]
  | _ => exact ⟨rfl, hverbatim rfl⟩

end Lexemes

/-! ### What pieces leave -/

section Pieces

variable {r : Reading} {ps : List Piece} {before before' : Bool}

theorem Piece.Sound.of_erased {p : Piece} (h : p.Sound) (herased : p.erased = true) :
    ∃ c, c ≠ '\n' ∧ c ≠ '\r' ∧ p.text = [c] ∧ p.leaves = [] ∧ p.lexeme.spansLines = false := by
  obtain ⟨-, c, hc, hcode⟩ := h herased
  refine ⟨c, ?_, ?_, by rw [Piece.text, hcode]; rfl, by rw [Piece.leaves, if_pos herased],
    by rw [hcode]; rfl⟩
  · rintro rfl
    simp at hc
  · rintro rfl
    simp at hc

/-- **What pieces leave is paired if their text is** and no comment goes over several lines. What is
left so far ends with a carriage return whenever the text so far does. -/
theorem feedsPaired_leavesOf (h : Lexed r ps) (hsound : ∀ p ∈ ps, p.Sound)
    (hspan : ∀ p ∈ ps, p.lexeme.spansLines = false) (hle : before = true → before' = true)
    (htext : feedsPaired before (textOf ps) = true) : feedsPaired before' (leavesOf ps) = true := by
  induction h generalizing before before' with
  | nil => rfl
  | @cons r p ps _ hfits hlexed ih =>
    rw [List.forall_mem_cons] at hsound hspan
    rw [textOf_cons, feedsPaired_append, Bool.and_eq_true] at htext
    rw [leavesOf_cons, feedsPaired_append, Bool.and_eq_true]
    by_cases herased : p.erased = true
    · obtain ⟨c, -, hc, hptext, hleaves, -⟩ := hsound.1.of_erased herased
      rw [hleaves]
      refine ⟨rfl, ih hsound.2 hspan.2 ?_ htext.2⟩
      simp [hptext, hc]
    · have hleaves : p.leaves = p.lexeme.leaves := if_neg herased
      obtain ⟨hfirst, hreturned⟩ := hfits.paired hspan.1 hle htext.1
      rw [hleaves]
      refine ⟨hfirst, ?_⟩
      by_cases hrest : textOf ps = []
      · rw [hlexed.eq_nil hrest]
        rfl
      · exact ih hsound.2 hspan.2 (hreturned hrest) htext.2

/-- **Pieces that leave a paired text hold no comment over several lines.** What is left so far ends
with a carriage return only before a line feed of the text. -/
theorem spansLines_of_feedsPaired (h : Lexed r ps) (hsound : ∀ p ∈ ps, p.Sound)
    (hreturns : PairedReturns (textOf ps))
    (hbefore : before = true → (textOf ps).head? = some '\n')
    (hleaves : feedsPaired before (leavesOf ps) = true) :
    ∀ p ∈ ps, p.lexeme.spansLines = false := by
  induction h generalizing before with
  | nil => simp
  | @cons r p ps _ hfits hlexed ih =>
    rw [List.forall_mem_cons] at hsound ⊢
    rw [textOf_cons] at hreturns hbefore
    rw [leavesOf_cons, feedsPaired_append, Bool.and_eq_true] at hleaves
    by_cases herased : p.erased = true
    · obtain ⟨c, hc, -, hptext, hpleaves, hspan⟩ := hsound.1.of_erased herased
      obtain rfl : before = false := by simpa [hptext, hc] using hbefore
      rw [hpleaves] at hleaves
      exact ⟨hspan, ih hsound.2 hreturns.of_append (by simp) hleaves.2⟩
    · have hpleaves : p.leaves = p.lexeme.leaves := if_neg herased
      rw [hpleaves] at hleaves
      obtain ⟨hspan, hreturned⟩ := hfits.paired_conv hreturns hbefore hleaves.1
      exact ⟨hspan, ih hsound.2 hreturns.of_append hreturned hleaves.2⟩

end Pieces

end Scan

/-! ### Stripped texts -/

/-- Whether no block comment of a text goes over several lines. -/
def NoSpanningComment (cs : List Char) : Prop :=
  ∀ p ∈ Scan.pieces Scan.keepBraces { rest := cs }, p.lexeme.spansLines = false

instance (cs : List Char) : Decidable (NoSpanningComment cs) := List.decidableBAll _ _

section Stripped

variable (o : ScanOptions) {source : String}

theorem exists_pieces_strip (source : String) :
    ∃ ps, (strip o source).text.toList = Scan.leavesOf ps ∧ Scan.textOf ps = source.toList ∧
      Scan.Lexed {} ps ∧ (∀ p ∈ ps, p.Sound) ∧
      (NoSpanningComment source.toList ↔ ∀ p ∈ ps, p.lexeme.spansLines = false) := by
  obtain ⟨ps, hfollows, hremovals⟩ := Scan.exists_removals o source.toList
  obtain ⟨htext, hlexed, hsound, hrestored⟩ := Scan.pieces_of_removals hremovals
  refine ⟨ps, by simp [strip, hfollows.out], htext, hlexed, hsound, ?_⟩
  rw [NoSpanningComment, ← hrestored, List.forall_mem_map]
  rfl

theorem pairedFeeds_strip (h : PairedFeeds source.toList)
    (hspan : NoSpanningComment source.toList) : PairedFeeds (strip o source).text.toList := by
  obtain ⟨ps, hleaves, htext, hlexed, hsound, hiff⟩ := exists_pieces_strip o source
  rw [← feedsPaired_false_iff, ← htext] at h
  rw [hleaves, ← feedsPaired_false_iff]
  exact Scan.feedsPaired_leavesOf hlexed hsound (hiff.mp hspan) id h

theorem noSpanningComment_of_strip (hreturns : PairedReturns source.toList)
    (h : PairedFeeds (strip o source).text.toList) : NoSpanningComment source.toList := by
  obtain ⟨ps, hleaves, htext, hlexed, hsound, hiff⟩ := exists_pieces_strip o source
  rw [hleaves, ← feedsPaired_false_iff] at h
  rw [← htext] at hreturns
  exact hiff.mpr (Scan.spansLines_of_feedsPaired hlexed hsound hreturns (by simp) h)

end Stripped

/-! ### Tidied texts -/

/-- What is left of a line with a carriage return at its end keeps it, or is nothing. -/
theorem row_eq_nil_or_return (run : Nat) {body : List Char} (h : '\n' ∉ body) :
    row run (body ++ ['\r']) = [] ∨
      ∃ front, '\n' ∉ front ∧ row run (body ++ ['\r']) = '\n' :: (front ++ ['\r']) := by
  unfold row
  rw [trimLine, splitReturn_return]
  split_ifs
  · exact .inr ⟨[], by simp, rfl⟩
  · exact .inl rfl
  · exact .inr ⟨_, fun hmem => h ((List.rdropWhile_prefix isSpaceOrTab _).subset hmem), rfl⟩

/-- **The rows of a paired text are paired** behind a carriage return: each line that is kept ends
with the one for the next row. -/
theorem feedsPaired_rows (run : Nat) {cs : List Char} (h : PairedFeeds cs) :
    feedsPaired true (rows run cs) = true := by
  induction cs using line_induction generalizing run with
  | hlast line hmem =>
    rw [rows_last run hmem]
    unfold row
    split_ifs
    · rw [feedsPaired_feed, Bool.true_and]
      exact feedsPaired_of_notMem fun hfeed => hmem (mem_of_mem_splitReturn hfeed)
    · rfl
    · rw [feedsPaired_feed, Bool.true_and]
      exact feedsPaired_of_notMem fun hfeed => hmem (mem_of_mem_trimLine hfeed)
  | hline line cs hmem ih =>
    obtain ⟨body, rfl⟩ := List.getLast?_eq_some_iff.mp (h line cs rfl)
    have hbody : '\n' ∉ body := by simpa using hmem
    have hrest : PairedFeeds cs := by
      rw [← feedsPaired_false_iff, feedsPaired_append, feedsPaired_feed, Bool.and_eq_true,
        Bool.and_eq_true] at h
      exact feedsPaired_false_iff.mp h.2.2
    rw [rows_line run hmem]
    rcases row_eq_nil_or_return run hbody with hrow | ⟨front, hfront, hrow⟩
    · rw [hrow, List.nil_append]
      exact ih _ hrest
    · rw [hrow]
      simp [feedsPaired, feedsPaired_of_notMem hfront, ih _ hrest]

theorem finalTerminator_of_paired {cs : List Char} (h : PairedFeeds cs) (hfeed : '\n' ∈ cs) :
    finalTerminator cs = ['\r', '\n'] := by
  obtain ⟨front, back, rfl⟩ := List.append_of_mem hfeed
  obtain ⟨body, rfl⟩ := List.getLast?_eq_some_iff.mp (h front back rfl)
  rw [finalTerminator, if_pos (hasCrlf_eq_true.mpr ⟨body, back, by simp⟩)]

theorem pairedFeeds_tidyChars {cs : List Char} (h : PairedFeeds cs) (hfeed : '\n' ∈ cs) :
    PairedFeeds (tidyChars cs) := by
  have hterm := finalTerminator_of_paired h hfeed
  rcases blank_or_solid cs with hblank | ⟨front, c, tail, rfl, hc, htail⟩
  · rw [tidyChars_blank hblank, ← feedsPaired_false_iff]
    rfl
  · have hfront : PairedFeeds (front ++ [c]) := by
      rw [List.append_cons, ← feedsPaired_false_iff, feedsPaired_append, Bool.and_eq_true] at h
      exact feedsPaired_false_iff.mp h.1
    have hrows := feedsPaired_rows 0 hfront
    rw [rows_zero, feedsPaired_feed, Bool.true_and] at hrows
    rw [tidyChars_solid hc front htail, hterm, ← feedsPaired_false_iff, feedsPaired_append, hrows]
    rfl

/-! ### Clean texts -/

/-- **Line feeds keep their carriage returns**, if no block comment goes over several lines. Where
the carriage returns of the source are paired as well, the stripped text has a line feed alone if
and only if some block comment does. -/
theorem pairedFeeds_clean (o : Options) (source : String) (h : PairedFeeds source.toList) :
    ('\n' ∈ source.toList → NoSpanningComment source.toList →
      PairedFeeds (o.clean source).text.toList) ∧
    (PairedReturns source.toList →
      (PairedFeeds (strip o.scan source).text.toList ↔ NoSpanningComment source.toList)) := by
  refine ⟨fun hfeed hspan => ?_, fun hreturns =>
    ⟨noSpanningComment_of_strip o.scan hreturns, pairedFeeds_strip o.scan h⟩⟩
  have hstrip := pairedFeeds_strip o.scan h hspan
  have hfeed' : '\n' ∈ (strip o.scan source).text.toList := by
    rw [← List.count_pos_iff, (thinned_strip o.scan source).count, List.count_pos_iff]
    exact hfeed
  cases htidy : o.tidy with
  | false => simpa [Options.clean, htidy] using hstrip
  | true =>
    have htext : (o.clean source).text.toList = tidyChars (strip o.scan source).text.toList := by
      simp [Options.clean, htidy, tidy]
    rw [htext]
    exact pairedFeeds_tidyChars hstrip hfeed'

/-- A string that ends with its line, a comment in braces, and comments at the end of a line and of
the text. -/
theorem pairedFeeds_clean_line_ends :
    PairedFeeds (({} : Options).clean "'a\r\n\x7b /*b*/ \x7d //c\r\n\r\n//d").text.toList ∧
      (PairedFeeds (strip {} "'a\r\n\x7b /*b*/ \x7d //c\r\n\r\n//d").text.toList ↔
        NoSpanningComment "'a\r\n\x7b /*b*/ \x7d //c\r\n\r\n//d".toList) := by
  have h := pairedFeeds_clean {} "'a\r\n\x7b /*b*/ \x7d //c\r\n\r\n//d" (by decide +kernel)
  exact ⟨h.1 (by decide +kernel) (by decide +kernel), h.2 (by decide +kernel)⟩

/-- The line feed that is left of a comment over two lines stands alone. -/
theorem pairedFeeds_clean_block :
    PairedFeeds "a /*b\r\nc*/ d\r\n".toList ∧
      (({} : Options).clean "a /*b\r\nc*/ d\r\n").text = "a\n d\r\n" ∧
      ¬ PairedFeeds (({} : Options).clean "a /*b\r\nc*/ d\r\n").text.toList := by
  decide +kernel

end Uncomment
