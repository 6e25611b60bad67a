import TextualData.Text.Offset
import TextualData.Text.Blank

/-!
# Cursors

A `Cursor` is a place in a text inside a window: everything before the place, from the start of
the whole text, and what is left up to the end of the window. The byte offset of the place is the
size of what lies before it, so a cursor can never split a character.
-/

namespace TextualData

/-- A place in a text. -/
structure Cursor where
  /-- The characters before the place, nearest first. -/
  before : List Char
  /-- The characters from the place to the end of the window. -/
  rest : List Char
deriving DecidableEq, Repr

namespace Cursor

/-- The start of the window between two byte offsets of a text. -/
def ofWindow (text : List Char) (start stop : Nat) : Cursor :=
  let (before, rest) := Text.splitAtByte start text
  ⟨before, (Text.splitAtByte (stop - start) rest).1.reverse⟩

/-- The start of a text, with the whole of it as the window. -/
def ofText (text : List Char) : Cursor :=
  ⟨[], text⟩

/-- The byte offset of the place in the whole text. -/
def position (c : Cursor) : Nat :=
  Text.byteSize c.before

/-- The character at the place, if the window does not end there. -/
def peek? (c : Cursor) : Option Char :=
  c.rest.head?

/-- The place after the next character; the end of the window is not passed. -/
def next (c : Cursor) : Cursor :=
  match c.rest with
  | [] => c
  | x :: rest => ⟨x :: c.before, rest⟩

/-- The place before the previous character. -/
def previous (c : Cursor) : Cursor :=
  match c.before with
  | [] => c
  | x :: before => ⟨before, x :: c.rest⟩

/-- The place after `passed`, when what is left is those characters and then `rest`. -/
def pass (c : Cursor) (passed rest : List Char) : Cursor :=
  ⟨passed.reverse ++ c.before, rest⟩

@[simp] theorem position_pass (c : Cursor) (passed rest : List Char) :
    (c.pass passed rest).position = c.position + Text.byteSize passed := by
  simp [position, pass]; omega

end Cursor
end TextualData
