/-
# Cutting a text at byte offsets

A text can be cut at a byte offset only between two of its characters: there is no cut past the
end of the text or inside a character (`splitAtByte_eq_some_iff`). The offsets at which there is
one are the valid positions of the text as a string (`isSome_splitAtByte_iff`).

A search for a pattern gives the byte offset of its first occurrence (`findBytes_first`), at which
the text can therefore be cut.

Key definitions: `splitAtByte`, `sliceTo`, `sliceFrom`, `findBytes`.
Key theorems: `splitAtByte_eq_some_iff`, `isSome_splitAtByte_iff`, `findBytes_first`,
`findBytes_none`.
-/
import Mathlib.Data.List.Infix
import Uncomment.Proofs.Reach

namespace Uncomment

open Text

/-! ### Cuts -/

/-- The two parts of a text on both sides of a byte offset, unless the offset is past the end of
the text or inside one of its characters. -/
def splitAtByte : List Char → Nat → Option (List Char × List Char)
  | cs, 0 => some ([], cs)
  | [], _ + 1 => none
  | c :: cs, n + 1 =>
    if c.utf8Size ≤ n + 1 then
      (splitAtByte cs (n + 1 - c.utf8Size)).map fun parts => (c :: parts.1, parts.2)
    else none

/-- The part of a text before a byte offset. -/
def sliceTo (cs : List Char) (n : Nat) : Option (List Char) := (splitAtByte cs n).map Prod.fst

/-- The part of a text from a byte offset on. -/
def sliceFrom (cs : List Char) (n : Nat) : Option (List Char) := (splitAtByte cs n).map Prod.snd

theorem splitAtByte_append (back : List Char) : ∀ front : List Char,
    splitAtByte (front ++ back) (byteSize front) = some (front, back)
  | [] => by
    cases back with
    | nil => rfl
    | cons c cs => rfl
  | c :: front => by
    have hpos := c.utf8Size_pos
    obtain ⟨n, hn⟩ : ∃ n, c.utf8Size + byteSize front = n + 1 :=
      ⟨c.utf8Size + byteSize front - 1, by omega⟩
    have hrest : n + 1 - c.utf8Size = byteSize front := by omega
    rw [byteSize_cons, hn, List.cons_append, splitAtByte, if_pos (by omega), hrest,
      splitAtByte_append back front]
    rfl

theorem eq_append_of_splitAtByte {cs : List Char} {n : Nat} {front back : List Char}
    (h : splitAtByte cs n = some (front, back)) : cs = front ++ back ∧ byteSize front = n := by
  fun_induction splitAtByte cs n generalizing front with
  | case1 cs =>
    obtain ⟨rfl, rfl⟩ := Prod.mk.inj (Option.some.inj h)
    exact ⟨rfl, rfl⟩
  | case2 n => exact absurd h (by simp)
  | case3 c cs n hle ih =>
    obtain ⟨⟨front', back'⟩, hsplit, hparts⟩ := Option.map_eq_some_iff.mp h
    obtain ⟨rfl, rfl⟩ := Prod.mk.inj hparts
    obtain ⟨rfl, hsize⟩ := ih hsplit
    refine ⟨rfl, ?_⟩
    rw [byteSize_cons, hsize]
    omega
  | case4 c cs n hlt => exact absurd h (by simp)

/-- **A text is cut between two characters.** The part before the cut has the size of the
offset. -/
theorem splitAtByte_eq_some_iff {cs : List Char} {n : Nat} {front back : List Char} :
    splitAtByte cs n = some (front, back) ↔ cs = front ++ back ∧ byteSize front = n := by
  constructor
  · exact eq_append_of_splitAtByte
  · rintro ⟨rfl, rfl⟩
    exact splitAtByte_append back front

theorem sliceTo_append (front back : List Char) :
    sliceTo (front ++ back) (byteSize front) = some front := by
  rw [sliceTo, splitAtByte_append]
  rfl

theorem sliceFrom_append (front back : List Char) :
    sliceFrom (front ++ back) (byteSize front) = some back := by
  rw [sliceFrom, splitAtByte_append]
  rfl

/-- The offsets at which a text can be cut are the valid positions of the string. -/
theorem isSome_splitAtByte_iff {text : String} {n : Nat} :
    (splitAtByte text.toList n).isSome ↔ (String.Pos.Raw.mk n).IsValid text := by
  rw [Option.isSome_iff_exists, String.Pos.Raw.isValid_iff_exists_append]
  constructor
  · rintro ⟨⟨front, back⟩, hsplit⟩
    obtain ⟨hchars, hsize⟩ := splitAtByte_eq_some_iff.mp hsplit
    refine ⟨String.ofList front, String.ofList back, ?_, ?_⟩
    · rw [← String.ofList_append, ← hchars, String.ofList_toList]
    · have hbytes : byteSize front = (String.ofList front).utf8ByteSize := by
        rw [← byteSize_toList, String.toList_ofList]
      rw [← hsize, hbytes]
      rfl
  · rintro ⟨front, back, rfl, hpos⟩
    have hsize : n = byteSize front.toList := by
      rw [byteSize_toList]
      exact congrArg String.Pos.Raw.byteIdx hpos
    refine ⟨(front.toList, back.toList), ?_⟩
    rw [String.toList_append, hsize]
    exact splitAtByte_append ..

/-! ### Searches -/

/-- The byte offset at which a pattern is found first in a text. -/
def findBytes (pattern : List Char) : List Char → Option Nat
  | [] => none
  | c :: cs =>
    if pattern.isPrefixOf (c :: cs) then some 0
    else (findBytes pattern cs).map (c.utf8Size + ·)

/-- A pattern is not found in a text that does not hold it. -/
theorem findBytes_none {pattern : List Char} : ∀ {text : List Char}, ¬ pattern <:+: text →
    findBytes pattern text = none
  | [], _ => rfl
  | c :: cs, h => by
    rw [List.infix_cons_iff, not_or] at h
    rw [findBytes, if_neg (by rw [List.isPrefixOf_iff_prefix]; exact h.1), findBytes_none h.2]
    rfl

/-- **The first occurrence is found.** It is the first one if the text before it, with all of the
pattern but its last character, does not hold the pattern. -/
theorem findBytes_first {pattern : List Char} (hne : pattern ≠ []) (rest : List Char) :
    ∀ {text : List Char}, ¬ pattern <:+: text ++ pattern.dropLast →
      findBytes pattern (text ++ (pattern ++ rest)) = some (byteSize text)
  | [], _ => by
    obtain ⟨c, cs, rfl⟩ := List.exists_cons_of_ne_nil hne
    rw [List.nil_append, List.cons_append, findBytes, if_pos]
    · rfl
    · rw [List.isPrefixOf_iff_prefix]
      exact ⟨rest, rfl⟩
  | c :: text, h => by
    rw [List.cons_append, List.infix_cons_iff, not_or] at h
    have hnot : ¬ pattern <+: c :: (text ++ (pattern ++ rest)) := by
      -- an occurrence here would end before the last character of the next one
      intro hprefix
      apply h.1
      refine List.prefix_of_prefix_length_le hprefix ⟨[pattern.getLast hne] ++ rest, ?_⟩ ?_
      · have hsplit := List.dropLast_append_getLast hne
        conv_rhs => rw [← hsplit]
        simp
      · have hpos := List.length_pos_iff.mpr hne
        simp only [List.length_cons, List.length_append, List.length_dropLast]
        omega
    rw [List.cons_append, findBytes, if_neg (by rw [List.isPrefixOf_iff_prefix]; exact hnot),
      findBytes_first hne rest h.2]
    rfl

end Uncomment
