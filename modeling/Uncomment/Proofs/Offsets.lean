/-
# The position of every byte

An offset is a number of bytes, and may lie inside a character or past the end of the text. Here
a text is looked at as its bytes. The byte of a line feed stands for a line feed wherever it is
found (`feedByte_notMem`), so the index of lines lists the offset zero and every offset just after
such a byte (`mem_startsOf`), and the line of an offset counts the ones before it.

Bisection splits the index at an offset (`position_split`): what comes before is not above the
offset, what comes after is. So the last entry before the split is the start of the line, the
largest one that is not above the offset, and the way back from a position to its offset leads
over it. The numbers on the way stay small: a version that gives up as soon as one of them cannot
be held in 64 bits never does (`positionWithin_eq`).

Key definitions: `bytesOf`, `feedsBefore`, `StartsLine`, `LineIndex.positionWithin`.
Key theorems: `LineIndex.mem_startsOf`, `LineIndex.position_split`, `LineIndex.positionWithin_eq`,
`LineIndex.strictMono_position`, `position_by_counting`.
-/
import Mathlib.Algebra.Group.Nat.Defs
import Mathlib.Data.Prod.Lex
import Mathlib.Order.Bounds.Basic
import Uncomment.Proofs.Positions

namespace Uncomment

open Text

/-! ### Numbers of limited width -/

/-- The sum of two numbers, unless it takes more than so many bits. -/
def addWithin (bits a b : Nat) : Option Nat := if a + b < 2 ^ bits then some (a + b) else none

/-- The difference of two numbers, unless it is negative. -/
def subWithin (a b : Nat) : Option Nat := if b ≤ a then some (a - b) else none

theorem addWithin_eq {bits a b : Nat} (h : a + b < 2 ^ bits) : addWithin bits a b = some (a + b) :=
  if_pos h

theorem subWithin_eq {a b : Nat} (h : b ≤ a) : subWithin a b = some (a - b) := if_pos h

/-! ### Bytes -/

/-- The bytes of a text. -/
def bytesOf (text : String) : List UInt8 := text.toUTF8.data.toList

/-- The byte of a line feed. -/
def feedByte : UInt8 := 0x0A

/-- The number of line feeds among the bytes before an offset. -/
def feedsBefore (bytes : List UInt8) (offset : Nat) : Nat := (bytes.take offset).count feedByte

/-- Whether a line starts at an offset: it is zero, or comes just after a line feed. -/
def StartsLine (bytes : List UInt8) (offset : Nat) : Prop :=
  offset = 0 ∨ ∃ k, offset = k + 1 ∧ bytes[k]? = some feedByte

theorem bytesOf_eq (text : String) : bytesOf text = text.toList.flatMap String.utf8EncodeChar := by
  have hbytes : text.toUTF8 = text.toList.utf8Encode := by
    have hlist := String.toByteArray_ofList (l := text.toList)
    rwa [String.ofList_toList] at hlist
  rw [bytesOf, hbytes]
  exact List.toList_data_toByteArray

/-- Only a line feed has the byte of a line feed in it: the bytes of a longer character are above
all those of one byte. -/
theorem feedByte_notMem {c : Char} (h : c ≠ '\n') : feedByte ∉ String.utf8EncodeChar c := by
  have hcode : c.val.toNat ≠ 10 := by
    intro hval
    apply h
    apply Char.ext
    exact UInt32.toNat_inj.mp hval
  have hne : ∀ n < 256, n ≠ 10 → feedByte ≠ UInt8.ofNat n := by
    intro n hn hten heq
    have hnat := congrArg UInt8.toNat heq
    rw [UInt8.toNat_ofNat', Nat.mod_eq_of_lt hn] at hnat
    exact hten hnat.symm
  unfold String.utf8EncodeChar
  dsimp only
  split_ifs
  · rw [List.mem_singleton]
    exact hne _ (by omega) hcode
  · simp only [List.mem_cons, List.not_mem_nil, or_false, not_or]
    exact ⟨hne _ (by omega) (by omega), hne _ (by omega) (by omega)⟩
  · simp only [List.mem_cons, List.not_mem_nil, or_false, not_or]
    exact ⟨hne _ (by omega) (by omega), hne _ (by omega) (by omega), hne _ (by omega) (by omega)⟩
  · simp only [List.mem_cons, List.not_mem_nil, or_false, not_or]
    exact ⟨hne _ (by omega) (by omega), hne _ (by omega) (by omega), hne _ (by omega) (by omega),
      hne _ (by omega) (by omega)⟩

/-- The offsets just after the line feeds among some bytes that begin at offset `pos`. -/
def feedOffsets (pos : Nat) : List UInt8 → List Nat
  | [] => []
  | b :: bs =>
    if b = feedByte then (pos + 1) :: feedOffsets (pos + 1) bs else feedOffsets (pos + 1) bs

theorem feedOffsets_append (back : List UInt8) : ∀ (front : List UInt8) (pos : Nat),
    feedOffsets pos (front ++ back) =
      feedOffsets pos front ++ feedOffsets (pos + front.length) back
  | [], pos => rfl
  | b :: front, pos => by
    have ih := feedOffsets_append back front (pos + 1)
    have hpos : pos + (b :: front).length = pos + 1 + front.length := by
      rw [List.length_cons]
      omega
    rw [hpos]
    simp only [List.cons_append, feedOffsets]
    by_cases hb : b = feedByte
    · rw [if_pos hb, if_pos hb, ih, List.cons_append]
    · rw [if_neg hb, if_neg hb, ih]

theorem feedOffsets_of_notMem : ∀ {bs : List UInt8} (pos : Nat), feedByte ∉ bs →
    feedOffsets pos bs = []
  | [], _, _ => rfl
  | b :: bs, pos, h => by
    rw [List.mem_cons, not_or] at h
    rw [feedOffsets, if_neg (Ne.symm h.1), feedOffsets_of_notMem (pos + 1) h.2]

theorem mem_feedOffsets {x : Nat} : ∀ {bs : List UInt8} {pos : Nat},
    x ∈ feedOffsets pos bs ↔ ∃ k, x = pos + k + 1 ∧ bs[k]? = some feedByte
  | [], pos => by simp [feedOffsets]
  | b :: bs, pos => by
    have ih : x ∈ feedOffsets (pos + 1) bs ↔ ∃ k, x = pos + 1 + k + 1 ∧ bs[k]? = some feedByte :=
      mem_feedOffsets
    have hfirst : x ∈ feedOffsets pos (b :: bs) ↔
        (b = feedByte ∧ x = pos + 1) ∨ x ∈ feedOffsets (pos + 1) bs := by
      rw [feedOffsets]
      by_cases hb : b = feedByte
      · simp [hb]
      · simp [hb]
    rw [hfirst, ih]
    constructor
    · rintro (⟨rfl, rfl⟩ | ⟨k, hx, hk⟩)
      · exact ⟨0, rfl, rfl⟩
      · exact ⟨k + 1, by omega, hk⟩
    · rintro ⟨k, hx, hk⟩
      cases k with
      | zero => exact .inl ⟨Option.some.inj hk, hx⟩
      | succ k => exact .inr ⟨k, by omega, hk⟩

/-- As many lines start up to an offset as there are line feeds before it. -/
theorem countP_feedOffsets : ∀ (bs : List UInt8) (pos n : Nat),
    (feedOffsets pos bs).countP (· ≤ pos + n) = feedsBefore bs n
  | [], _, n => by simp [feedOffsets, feedsBefore]
  | b :: bs, pos, 0 => by
    rw [feedsBefore, List.take_zero, List.count_nil, List.countP_eq_zero]
    intro x hx
    obtain ⟨k, rfl, -⟩ := mem_feedOffsets.mp hx
    simp only [decide_eq_true_eq]
    omega
  | b :: bs, pos, n + 1 => by
    have ih := countP_feedOffsets bs (pos + 1) n
    have hpos : pos + 1 + n = pos + (n + 1) := by omega
    rw [hpos] at ih
    rw [feedsBefore] at ih ⊢
    rw [List.take_succ_cons, feedOffsets]
    by_cases hb : b = feedByte
    · rw [if_pos hb, List.countP_cons_of_pos (by simp), ih, hb, List.count_cons_self]
    · rw [if_neg hb, ih, List.count_cons_of_ne hb]

theorem feedsBefore_le (bytes : List UInt8) (offset : Nat) : feedsBefore bytes offset ≤ offset := by
  have hcount : feedsBefore bytes offset ≤ (bytes.take offset).length := List.count_le_length
  have hlength := List.length_take_le offset bytes
  omega

theorem feedsBefore_mono (bytes : List UInt8) {a b : Nat} (h : a ≤ b) :
    feedsBefore bytes a ≤ feedsBefore bytes b :=
  (List.take_sublist_take_left h).count_le feedByte

namespace LineIndex

/-! ### The start of a line -/

/-- The characters of a text and its bytes have the same line feeds. -/
theorem startsAfter_eq : ∀ (cs : List Char) (pos : Nat),
    startsAfter pos cs = feedOffsets pos (cs.flatMap String.utf8EncodeChar)
  | [], _ => rfl
  | c :: cs, pos => by
    have ih := startsAfter_eq cs (pos + c.utf8Size)
    have hlength := String.length_utf8EncodeChar c
    rw [List.flatMap_cons, feedOffsets_append, hlength, ← ih, startsAfter]
    by_cases hc : c = '\n'
    · subst hc
      rfl
    · rw [feedOffsets_of_notMem pos (feedByte_notMem hc), List.nil_append]
      exact if_neg hc

/-- The offsets at which the lines of a text start. -/
def startsOf (text : String) : List Nat := 0 :: startsAfter 0 text.toList

theorem starts_ofChars (text : String) :
    (ofChars text.toList).starts = (startsOf text).toArray := rfl

theorem pairwise_startsOf (text : String) : (startsOf text).Pairwise (· < ·) :=
  .cons (fun _ hx => lt_of_mem_startsAfter hx) (pairwise_startsAfter _ 0)

/-- A line starts at every offset of the index, and at no other. -/
theorem mem_startsOf {text : String} {x : Nat} :
    x ∈ startsOf text ↔ StartsLine (bytesOf text) x := by
  rw [startsOf, startsAfter_eq, ← bytesOf_eq, List.mem_cons, mem_feedOffsets]
  simp only [Nat.zero_add]
  rfl

/-- As many lines start up to an offset as there are line feeds before it, and one more. -/
theorem countP_startsOf (text : String) (offset : Nat) :
    (startsOf text).countP (· ≤ offset) = feedsBefore (bytesOf text) offset + 1 := by
  have hcount := countP_feedOffsets (bytesOf text) 0 offset
  rw [Nat.zero_add] at hcount
  rw [startsOf, startsAfter_eq, ← bytesOf_eq, List.countP_cons_of_pos (by simp), hcount]

/-- **Where the index is split at an offset.** The line feeds before the offset lead to the start
of its line. That is the largest start which is not above the offset, and the column is counted
from there. -/
theorem position_split (text : String) (offset : Nat) :
    ∃ start, (startsOf text)[feedsBefore (bytesOf text) offset]? = some start ∧
      IsGreatest {x | StartsLine (bytesOf text) x ∧ x ≤ offset} start ∧
      (ofChars text.toList).position offset =
        ⟨1 + feedsBefore (bytesOf text) offset, 1 + (offset - start)⟩ := by
  have hcount := countP_startsOf text offset
  have hbisect := bisect_eq_countP (pairwise_startsOf text) offset
  obtain ⟨hsize, hlow, hhigh⟩ := bisect_split (pairwise_startsOf text) offset
  rw [List.size_toArray] at hbisect
  rw [hbisect, hcount] at hsize hlow hhigh
  generalize hn : feedsBefore (bytesOf text) offset = n at hsize hlow hhigh hcount ⊢
  have hget : ∀ i (hi : i < (startsOf text).length),
      (startsOf text).getD i 0 = (startsOf text)[i] := fun i hi => List.getD_eq_getElem _ _ hi
  refine ⟨(startsOf text)[n], List.getElem?_eq_getElem _, ⟨⟨?_, ?_⟩, ?_⟩, ?_⟩
  · exact mem_startsOf.mp (List.getElem_mem _)
  · rw [← hget]
    exact hlow n (by omega)
  · rintro x ⟨hx, hle⟩
    obtain ⟨i, hi, rfl⟩ := List.mem_iff_getElem.mp (mem_startsOf.mpr hx)
    -- a start that is not above the offset is among the first ones, which increase up to the last
    have hin : i ≤ n := by
      by_contra hlt
      have habove := hhigh i (by omega) hi
      rw [hget i hi] at habove
      omega
    rcases Nat.eq_or_lt_of_le hin with rfl | hlt
    · exact Nat.le_refl _
    · exact Nat.le_of_lt (List.pairwise_iff_getElem.mp (pairwise_startsOf text) i n hi _ hlt)
  · have hmax : max (n + 1) 1 = 1 + n := by omega
    unfold position
    rw [starts_ofChars, List.size_toArray, hbisect, hcount, hmax]
    dsimp only
    rw [Nat.add_sub_cancel_left, ← hget n (by omega), Nat.add_comm 1 (offset - _)]
    simp

/-! ### Width -/

/-- The position of an offset by numbers of so many bits. It gives up if a number on the way leaves
their range, or if there is no entry of the index at the place where it is looked up. -/
def positionWithin (bits : Nat) (index : LineIndex) (offset : Nat) : Option Position := do
  let line ← subWithin (max (bisect index.starts offset 0 index.starts.size) 1) 1
  let start ← index.starts[line]?
  let number ← addWithin bits line 1
  let behind ← subWithin offset start
  let column ← addWithin bits behind 1
  return ⟨number, column⟩

/-- **No number on the way to a position leaves its range.** -/
theorem positionWithin_eq (text : String) {bits offset : Nat} (h : offset + 1 < 2 ^ bits) :
    positionWithin bits (ofChars text.toList) offset =
      some ((ofChars text.toList).position offset) := by
  obtain ⟨start, hstart, hgreatest, hposition⟩ := position_split text offset
  have hle : start ≤ offset := hgreatest.1.2
  have hfeeds := feedsBefore_le (bytesOf text) offset
  have hline :
      max (bisect (ofChars text.toList).starts offset 0 (ofChars text.toList).starts.size) 1 =
      1 + feedsBefore (bytesOf text) offset := congrArg Position.line hposition
  have hentry : (ofChars text.toList).starts[feedsBefore (bytesOf text) offset]? = some start := by
    rw [starts_ofChars, List.getElem?_toArray]
    exact hstart
  unfold positionWithin
  rw [hline, subWithin_eq (Nat.le_add_right ..), Nat.add_sub_cancel_left]
  simp only [Option.bind_eq_bind, Option.bind_some, hentry, subWithin_eq hle]
  rw [addWithin_eq (by omega), addWithin_eq (by omega), hposition, Nat.add_comm 1,
    Nat.add_comm 1]
  rfl

end LineIndex

/-! ### From offsets to positions and back -/

/-- A position as a pair that is compared by its line first. -/
def Position.key (p : Position) : ℕ ×ₗ ℕ := toLex (p.line, p.column)

/-- A later offset has a later position: it is on a later line, or on the same line, which has only
one start, in a later column. -/
theorem LineIndex.strictMono_position (text : String) :
    StrictMono fun offset => ((ofChars text.toList).position offset).key := by
  intro a b hab
  obtain ⟨start, hstart, hgreatest, ha⟩ := position_split text a
  obtain ⟨start', hstart', -, hb⟩ := position_split text b
  have hfeeds := feedsBefore_mono (bytesOf text) (Nat.le_of_lt hab)
  show Position.key _ < Position.key _
  rw [ha, hb, Position.key, Position.key, Prod.Lex.toLex_lt_toLex]
  dsimp only
  rcases Nat.lt_or_eq_of_le hfeeds with hlt | heq
  · exact .inl (by omega)
  · rw [heq] at hstart
    have hsame : start = start' := Option.some.inj (hstart.symm.trans hstart')
    have hle : start ≤ a := hgreatest.1.2
    exact .inr ⟨by omega, by omega⟩

theorem length_bytesOf (text : String) : (bytesOf text).length = text.utf8ByteSize := rfl

/-- What it means that a position of an offset is found by counting bytes, and that the offset is
found again from the start of its line. -/
structure Position.Counts (text : String) (offset start : Nat) (p : Position) : Prop where
  line_eq : p.line = 1 + feedsBefore (bytesOf text) offset
  isGreatest : IsGreatest {x | StartsLine (bytesOf text) x ∧ x ≤ offset} start
  column_eq : p.column = 1 + offset - start
  lineStart : (LineIndex.ofChars text.toList).starts[p.line - 1]? = some start
  offset_eq : start + p.column - 1 = offset

theorem LineIndex.exists_counts (text : String) (offset : Nat) :
    ∃ start, ((ofChars text.toList).position offset).Counts text offset start := by
  obtain ⟨start, hstart, hgreatest, hposition⟩ := position_split text offset
  have hle : start ≤ offset := hgreatest.1.2
  refine ⟨start, ?_⟩
  rw [hposition]
  constructor
  · rfl
  · exact hgreatest
  · dsimp only
    omega
  · rw [starts_ofChars, List.getElem?_toArray, Nat.add_sub_cancel_left]
    exact hstart
  · dsimp only
    omega

/-- **Positions are found by counting, and lead back to their offsets.** For every text and every
offset, also inside a character or past the end, the line counts the line feeds before the offset
and the column the bytes from the last start of a line; no number on the way leaves the range of
64 bits; and positions increase with offsets, so that each belongs to one offset only. -/
theorem position_by_counting (text : String) :
    (∀ offset < 2 ^ 64 - 1,
      (∃ start, ((LineIndex.ofChars text.toList).position offset).Counts text offset start) ∧
      (LineIndex.ofChars text.toList).positionWithin 64 offset =
        some ((LineIndex.ofChars text.toList).position offset)) ∧
    (∀ start ∈ (LineIndex.ofChars text.toList).starts, start ≤ text.utf8ByteSize) ∧
    (StrictMono fun offset => ((LineIndex.ofChars text.toList).position offset).key) ∧
    Function.Injective (LineIndex.ofChars text.toList).position := by
  have hmono := LineIndex.strictMono_position text
  refine ⟨fun offset h => ⟨?_, ?_⟩, ?_, hmono, ?_⟩
  · exact LineIndex.exists_counts text offset
  · exact LineIndex.positionWithin_eq text (by omega)
  · intro start hstart
    rw [LineIndex.starts_ofChars, List.mem_toArray, LineIndex.mem_startsOf] at hstart
    rcases hstart with rfl | ⟨k, rfl, hk⟩
    · exact Nat.zero_le _
    · have hlt := (List.getElem?_eq_some_iff.mp hk).1
      rw [length_bytesOf] at hlt
      omega
  · intro a b hab
    exact hmono.injective (congrArg Position.key hab)

/-- An offset inside a character, one on a line feed, one far past the end and the last one. -/
theorem position_by_counting_each_place :
    (LineIndex.ofChars "é\nb".toList).positionWithin 64 1 = some ⟨1, 2⟩ ∧
    (LineIndex.ofChars "é\nb".toList).positionWithin 64 2 = some ⟨1, 3⟩ ∧
    (LineIndex.ofChars "é\nb".toList).positionWithin 64 100 = some ⟨2, 98⟩ ∧
    (LineIndex.ofChars "é\nb".toList).positionWithin 64 (2 ^ 64 - 2) = some ⟨2, 2 ^ 64 - 4⟩ := by
  have hwithin := (position_by_counting "é\nb").1
  rw [(hwithin 1 (by decide)).2, (hwithin 2 (by decide)).2, (hwithin 100 (by decide)).2,
    (hwithin (2 ^ 64 - 2) (by decide)).2]
  decide +kernel

end Uncomment
