/-
# The word before a slash

The tracker sees code one character at a time and remembers a sign and a word. Here the code is
looked at as a whole: its last sign, which is neither part of a word nor blank, and the words after
it, which are maximal runs of word characters. The tracker holds the last sign and, up to the size
of the longest keyword, all the words after it as one: a blank ends no word (`follows_after`). The
part that is left out makes no difference, because a word that is cut is longer than every keyword
(`Keeps.isKeyword`).

So a slash can open a regular expression after the last word if that is a keyword, as long as no
other word stands between it and the last sign. A keyword behind another word is missed.

Key definitions: `lastSign`, `afterSign`, `words`, `lastWord`, `Tracker.Keeps`.
Key theorems: `Tracker.Follows.update`, `Tracker.follows_after`, `canStartRegex_iff`.
-/
import Mathlib.Data.List.DropRight
import Uncomment.Proofs.Reach

namespace Uncomment

open Text

/-! ### Signs and words -/

/-- Whether a character is a sign: neither part of a word nor blank. -/
def isSign (c : Char) : Bool := !isWord c && !isBlank c

/-- The last sign of some code, or a line feed if there is none. -/
def lastSign (code : List Char) : Char := (code.filter isSign).getLast?.getD '\n'

/-- What follows the last sign of some code. -/
def afterSign (code : List Char) : List Char := code.rtakeWhile (!isSign ·)

/-- The maximal runs of word characters in a text. -/
def words (cs : List Char) : List (List Char) := (cs.splitOnP (!isWord ·)).filter (!·.isEmpty)

/-- The last word after the last sign of some code, or nothing if there is none. -/
def lastWord (code : List Char) : List Char := (words (afterSign code)).getLast?.getD []

theorem lastSign_concat (code : List Char) (c : Char) :
    lastSign (code ++ [c]) = if isSign c then c else lastSign code := by
  rw [lastSign, List.filter_append]
  by_cases hc : isSign c = true
  · simp [hc]
  · simp [hc, lastSign]

theorem afterSign_concat (code : List Char) (c : Char) :
    afterSign (code ++ [c]) = if isSign c then [] else afterSign code ++ [c] := by
  rw [afterSign, List.rtakeWhile_concat]
  by_cases hc : isSign c = true
  · simp [hc]
  · simp [hc, afterSign]

/-- The words of a text put together are its word characters. -/
theorem flatten_words (cs : List Char) : (words cs).flatten = cs.filter isWord := by
  rw [words, List.flatten_filter_not_isEmpty]
  induction cs with
  | nil => rfl
  | cons c cs ih =>
    rw [List.splitOnP_cons_eq_if_modifyHead]
    by_cases hc : isWord c = true
    · obtain ⟨first, rest, hsplit⟩ := List.exists_cons_of_ne_nil (List.splitOnP_ne_nil _ cs)
      rw [hsplit] at ih ⊢
      simpa [hc] using ih
    · simpa [hc] using ih

/-- All the words after the last sign are the last one, if there is one at most. -/
theorem flatten_words_of_length_le {code : List Char} (h : (words (afterSign code)).length ≤ 1) :
    (words (afterSign code)).flatten = lastWord code := by
  unfold lastWord
  match words (afterSign code), h with
  | [], _ => rfl
  | [word], _ => exact List.append_nil word

namespace Tracker

/-! ### A word that is cut -/

/-- Whether a word is kept, if need be without its end: enough to be longer than every keyword. -/
def Keeps (kept word : List Char) : Prop :=
  kept = word ∨ wordLimit < byteSize kept ∧ kept <+: word

theorem Keeps.concat {kept word : List Char} (h : Keeps kept word) (c : Char) :
    Keeps (if byteSize kept ≤ wordLimit then kept ++ [c] else kept) (word ++ [c]) := by
  split_ifs with hsize
  · rcases h with rfl | ⟨hlong, -⟩
    · exact .inl rfl
    · exact absurd hsize (Nat.not_le.mpr hlong)
  · refine .inr ⟨Nat.not_le.mp hsize, ?_⟩
    rcases h with rfl | ⟨-, hcut⟩
    · exact List.prefix_append ..
    · exact hcut.trans (List.prefix_append ..)

theorem byteSize_of_mem_regexWords {word : String} (h : word ∈ regexWords) :
    byteSize word.toList ≤ wordLimit := by
  have hall : ∀ word ∈ regexWords, byteSize word.toList ≤ wordLimit := by decide
  exact hall word h

/-- A word that is cut and what is left of it are no keywords. -/
theorem Keeps.isKeyword {kept word : List Char} (h : Keeps kept word) :
    String.ofList kept ∈ regexWords ↔ String.ofList word ∈ regexWords := by
  rcases h with rfl | ⟨hlong, hcut⟩
  · exact Iff.rfl
  · have hword := byteSize_le_of_sublist hcut.sublist
    refine iff_of_false (fun hmem => ?_) (fun hmem => ?_)
    · have hsize := byteSize_of_mem_regexWords hmem
      rw [String.toList_ofList] at hsize
      omega
    · have hsize := byteSize_of_mem_regexWords hmem
      rw [String.toList_ofList] at hsize
      omega

theorem canStartRegex_eq_true (t : Tracker) :
    t.canStartRegex = true ↔ t.last ∈ regexSigns ∨ String.ofList t.word ∈ regexWords := by
  have hword : ∀ w : String, w.toList = t.word ↔ w = String.ofList t.word := fun w => by
    rw [← String.toList_inj, String.toList_ofList]
  simp [canStartRegex, hword]

/-! ### What the tracker holds -/

/-- The tracker after some code at the start of a text. -/
def after (code : List Char) : Tracker := code.foldl update {}

theorem after_concat (code : List Char) (c : Char) : after (code ++ [c]) = (after code).update c :=
  List.foldl_concat ..

/-- Whether a tracker holds the last sign of some code and the word characters after it. -/
structure Follows (t : Tracker) (code : List Char) : Prop where
  last : t.last = lastSign code
  word : Keeps t.word ((afterSign code).filter isWord)

/-- **One character more.** A word character is added to the word, a blank is passed over, and a
sign takes the place of both. -/
theorem Follows.update {t : Tracker} {code : List Char} (h : t.Follows code) (c : Char) :
    (t.update c).Follows (code ++ [c]) := by
  by_cases hword : isWord c = true
  · have hsign : isSign c = false := by simp [isSign, hword]
    have hupdate : t.update c =
        { t with word := if byteSize t.word ≤ wordLimit then t.word ++ [c] else t.word } := by
      rw [Tracker.update, if_pos hword]
      split_ifs <;> rfl
    rw [hupdate]
    refine ⟨?_, ?_⟩
    · simpa [lastSign_concat, hsign] using h.last
    · simpa [afterSign_concat, hsign, hword] using h.word.concat c
  · by_cases hblank : isBlank c = true
    · have hsign : isSign c = false := by simp [isSign, hblank]
      rw [Tracker.update, if_neg hword, if_pos hblank]
      refine ⟨?_, ?_⟩
      · simpa [lastSign_concat, hsign] using h.last
      · simpa [afterSign_concat, hsign, hword] using h.word
    · have hsign : isSign c = true := by simp [isSign, hword, hblank]
      rw [Tracker.update, if_neg hword, if_neg hblank]
      refine ⟨?_, ?_⟩
      · simp [lastSign_concat, hsign]
      · simp [afterSign_concat, hsign, Keeps]

/-- **The tracker holds the last sign and all the words after it as one.** -/
theorem follows_after (code : List Char) : (after code).Follows code := by
  induction code using List.reverseRecOn with
  | nil => exact ⟨rfl, .inl rfl⟩
  | append_singleton code c ih =>
    rw [after_concat]
    exact ih.update c

end Tracker

/-- **When a slash can open a regular expression.** The last sign allows it, or all the words after
that sign put together are a keyword. If the sign allows it or there is one word after it at most,
then it is the last word that has to be a keyword. -/
theorem canStartRegex_iff (code : List Char) :
    ((Tracker.after code).canStartRegex = true ↔
      lastSign code ∈ Tracker.regexSigns ∨
        String.ofList (words (afterSign code)).flatten ∈ Tracker.regexWords) ∧
    (lastSign code ∈ Tracker.regexSigns ∨ (words (afterSign code)).length ≤ 1 →
      ((Tracker.after code).canStartRegex = true ↔
        lastSign code ∈ Tracker.regexSigns ∨
          String.ofList (lastWord code) ∈ Tracker.regexWords)) := by
  have hfollows := Tracker.follows_after code
  have hwords : (Tracker.after code).canStartRegex = true ↔
      lastSign code ∈ Tracker.regexSigns ∨
        String.ofList (words (afterSign code)).flatten ∈ Tracker.regexWords := by
    rw [Tracker.canStartRegex_eq_true, hfollows.last, hfollows.word.isKeyword, flatten_words]
  refine ⟨hwords, ?_⟩
  rintro (hsign | hone)
  · exact iff_of_true (hwords.mpr (.inl hsign)) (.inl hsign)
  · rw [hwords, flatten_words_of_length_le hone]

/-- A keyword alone on its line, one behind a sign that decides nothing, and a word that is longer
than every keyword and starts with one. -/
theorem canStartRegex_iff_one_word :
    (Tracker.after "a.b;\n  return ".toList).canStartRegex = true ∧
    (Tracker.after "a.typeof \t".toList).canStartRegex = true ∧
    (Tracker.after "a.instanceof_b".toList).canStartRegex = false := by
  refine ⟨?_, ?_, ?_⟩
  · exact ((canStartRegex_iff _).2 (by decide)).mpr (by decide)
  · exact ((canStartRegex_iff _).2 (by decide)).mpr (by decide)
  · rw [Bool.eq_false_iff]
    exact mt ((canStartRegex_iff _).2 (by decide)).mp (by decide)

/-- A keyword on the line behind another word is missed, so that the quote in the regular expression
after it is taken for the start of a string and hides a comment; and two words that are a keyword
only when put together are taken for one. -/
theorem canStartRegex_two_words :
    lastWord "a.b\nreturn ".toList = "return".toList ∧
    (Tracker.after "a.b\nreturn ".toList).canStartRegex = false ∧
    ¬ ((Tracker.after "a.b\nreturn ".toList).canStartRegex = true ↔
      lastSign "a.b\nreturn ".toList ∈ Tracker.regexSigns ∨
        String.ofList (lastWord "a.b\nreturn ".toList) ∈ Tracker.regexWords) ∧
    stripText "a.b\nreturn /'/ //c" = "a.b\nreturn /'/ //c" ∧
    (Tracker.after "a.ty peof ".toList).canStartRegex = true := by
  decide +kernel

end Uncomment
