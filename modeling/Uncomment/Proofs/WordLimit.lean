/-
# How much of a word is remembered

The tracker stops adding to its word as soon as the word is longer than every keyword. Here it is
set beside a tracker that never stops. Whatever happens to both of them, they hold the same sign,
and the word of the first one is that of the second or a part of it that is already too long to be
a keyword (`Shortens`). So the two always give the same answer about a slash, and the first one
never holds more than one character beyond the limit.

Key definitions: `Tracker.Change`, `Tracker.applyFully`, `Tracker.Shortens`.
Key theorems: `Tracker.Shortens.apply`, `Tracker.Shortens.foldl`, `canStartRegex_full_word`.
-/
import Uncomment.Proofs.LastWord

namespace Uncomment

open Text

namespace Tracker

/-- What can happen to a tracker. -/
inductive Change where
  | update (c : Char)
  | resetTo (c : Char)
  | clearWord
deriving DecidableEq, Repr

/-- The tracker after a change. -/
def apply (t : Tracker) : Change → Tracker
  | .update c => t.update c
  | .resetTo c => resetTo c
  | .clearWord => t.clearWord

/-- The tracker after one more character of ordinary code, if a word is remembered in full. -/
def updateFully (t : Tracker) (c : Char) : Tracker :=
  if isWord c then { t with word := t.word ++ [c] }
  else if isBlank c then t
  else ⟨c, []⟩

/-- The tracker after a change, if a word is remembered in full. -/
def applyFully (t : Tracker) : Change → Tracker
  | .update c => t.updateFully c
  | .resetTo c => resetTo c
  | .clearWord => t.clearWord

/-- Whether a tracker holds what another one holds, but for the end of a word that is too long to
be a keyword, and of the word at most one character beyond the limit. -/
structure Shortens (t full : Tracker) : Prop where
  last : t.last = full.last
  word : Keeps t.word full.word
  size : byteSize t.word ≤ wordLimit + 4

/-- A word that is forgotten by both is forgotten. -/
theorem shortens_nil (c : Char) : Shortens ⟨c, []⟩ ⟨c, []⟩ := ⟨rfl, .inl rfl, Nat.zero_le _⟩

theorem Shortens.update {t full : Tracker} (h : Shortens t full) (c : Char) :
    Shortens (t.update c) (full.updateFully c) := by
  unfold Tracker.update updateFully
  by_cases hword : isWord c = true
  · have hkeeps := h.word.concat c
    rw [if_pos hword, if_pos hword]
    by_cases hroom : byteSize t.word ≤ wordLimit
    · -- there is room for one more character, of four bytes at most
      have hchar := c.utf8Size_le_four
      rw [if_pos hroom] at hkeeps ⊢
      refine ⟨h.last, hkeeps, ?_⟩
      rw [byteSize_append, byteSize_cons, byteSize_nil]
      omega
    · rw [if_neg hroom] at hkeeps ⊢
      exact ⟨h.last, hkeeps, h.size⟩
  · rw [if_neg hword, if_neg hword]
    by_cases hblank : isBlank c = true
    · rw [if_pos hblank, if_pos hblank]
      exact h
    · rw [if_neg hblank, if_neg hblank]
      exact shortens_nil c

/-- **One change.** Both trackers go the same way. -/
theorem Shortens.apply {t full : Tracker} (h : Shortens t full) (change : Change) :
    Shortens (t.apply change) (full.applyFully change) := by
  cases change with
  | update c => exact h.update c
  | resetTo c => exact shortens_nil c
  | clearWord => exact ⟨h.last, .inl rfl, Nat.zero_le _⟩

/-- **Any number of changes.** -/
theorem Shortens.foldl : ∀ (changes : List Change) {t full : Tracker}, Shortens t full →
    Shortens (changes.foldl Tracker.apply t) (changes.foldl applyFully full)
  | [], _, _, h => h
  | change :: changes, _, _, h => Shortens.foldl changes (h.apply change)

/-- The two trackers give the same answer: what is cut is no keyword, nor is what is left of it. -/
theorem Shortens.canStartRegex {t full : Tracker} (h : Shortens t full) :
    t.canStartRegex = full.canStartRegex := by
  rw [Bool.eq_iff_iff, canStartRegex_eq_true, canStartRegex_eq_true, h.last, h.word.isKeyword]

end Tracker

/-- **Nothing is lost by cutting long words.** After every sequence of changes, and so after each of
its changes, the tracker gives the same answer as one that remembers words in full, and its word is
longer than the limit by four bytes at most. -/
theorem canStartRegex_full_word (changes : List Tracker.Change) :
    (changes.foldl Tracker.apply {}).canStartRegex =
      (changes.foldl Tracker.applyFully {}).canStartRegex ∧
    byteSize (changes.foldl Tracker.apply {}).word ≤ Tracker.wordLimit + 4 := by
  have hshortens := Tracker.Shortens.foldl changes (Tracker.shortens_nil '\n')
  exact ⟨hshortens.canStartRegex, hshortens.size⟩

/-- A word can be too long by four bytes: a wide letter behind the longest keyword. -/
example : byteSize (("instanceof𝐀".toList.map .update).foldl Tracker.apply {}).word = 14 := by
  decide +kernel

end Uncomment
