/-
# Sizes in bytes

Offsets, columns and file sizes count the bytes of the UTF-8 form of a text, while the
scanner walks over its characters. The size of a list of characters is the bridge
between the two: it is additive, so an offset is the size of what stands before it.

Key definitions: `byteSize`.
Key theorems: `byteSize_append`.
-/
namespace Uncomment.Text

/-- The number of bytes in the UTF-8 form of a text. -/
def byteSize (cs : List Char) : Nat := cs.foldr (fun c n => c.utf8Size + n) 0

@[simp] theorem byteSize_nil : byteSize [] = 0 := rfl

@[simp] theorem byteSize_cons (c : Char) (cs : List Char) :
    byteSize (c :: cs) = c.utf8Size + byteSize cs := rfl

@[simp] theorem byteSize_append : ∀ xs ys : List Char,
    byteSize (xs ++ ys) = byteSize xs + byteSize ys
  | [], ys => (Nat.zero_add (byteSize ys)).symm
  | x :: xs, ys => by
    rw [List.cons_append, byteSize_cons, byteSize_cons, byteSize_append xs ys, Nat.add_assoc]

end Uncomment.Text
