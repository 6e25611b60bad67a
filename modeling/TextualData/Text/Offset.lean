/-!
# Byte offsets

Places in a text are counted in bytes of its UTF-8 form, while the text itself is handled as a
list of characters. `Text.byteSize` measures a list, `Text.splitAtByte` cuts it at an offset, and
`Text.byteSize_splitAtByte_append` says that the two halves fit together again.
-/

namespace TextualData
namespace Text

/-- The number of bytes of the UTF-8 form of the characters. -/
def byteSize (l : List Char) : Nat :=
  l.foldl (fun n c => n + c.utf8Size) 0

private theorem foldl_utf8Size (l : List Char) (n : Nat) :
    l.foldl (fun n c => n + c.utf8Size) n = n + byteSize l := by
  induction l generalizing n with
  | nil => simp [byteSize]
  | cons c l ih =>
    have h := ih (0 + c.utf8Size)
    simp only [byteSize, List.foldl_cons] at h ⊢
    rw [ih, h]
    simp only [byteSize]
    omega

@[simp] theorem byteSize_nil : byteSize [] = 0 := rfl

@[simp] theorem byteSize_cons (c : Char) (l : List Char) :
    byteSize (c :: l) = c.utf8Size + byteSize l := by
  have h := foldl_utf8Size l (0 + c.utf8Size)
  simpa [byteSize] using h

@[simp] theorem byteSize_append (l m : List Char) :
    byteSize (l ++ m) = byteSize l + byteSize m := by
  induction l with
  | nil => simp
  | cons c l ih => simp [ih]; omega

@[simp] theorem byteSize_reverse (l : List Char) : byteSize l.reverse = byteSize l := by
  induction l with
  | nil => rfl
  | cons c l ih => simp [ih]; omega

/-- Cuts the characters at a byte offset. The first half holds every character that begins before
the offset; the first component is reversed, nearest character first. -/
def splitAtByte (offset : Nat) (l : List Char) : List Char × List Char :=
  go [] offset l
where
  /-- Moves characters to the front half while `offset` bytes remain to be passed. -/
  go (before : List Char) : Nat → List Char → List Char × List Char
    | 0, l => (before, l)
    | _, [] => (before, [])
    | offset, c :: l => go (c :: before) (offset - c.utf8Size) l

theorem splitAtByte.go_append (before : List Char) (offset : Nat) (l : List Char) :
    (go before offset l).1.reverse ++ (go before offset l).2 = before.reverse ++ l := by
  induction l generalizing before offset with
  | nil => cases offset <;> simp [go]
  | cons c l ih =>
    cases offset with
    | zero => simp [go]
    | succ n => simp [go, ih]

/-- Nothing is lost by a cut. -/
theorem splitAtByte_append (offset : Nat) (l : List Char) :
    (splitAtByte offset l).1.reverse ++ (splitAtByte offset l).2 = l := by
  simpa [splitAtByte] using splitAtByte.go_append [] offset l

/-- The characters from the byte offset `start` up to the byte offset `stop`. -/
def slice (l : List Char) (start stop : Nat) : List Char :=
  (splitAtByte (stop - start) (splitAtByte start l).2).1.reverse

end Text
end TextualData
