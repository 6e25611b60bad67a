import TextualData.Text.Blank

/-!
# Places in a YAML document

A `Place` is what is left of a document, with the number of characters and lines passed and the
column reached. A `Reader` takes characters from a place, or refuses them. A line ends at a line
feed or at one of the two separators of Unicode, of which the former stands here for every other
kind of line break.
-/

namespace TextualData
namespace Yaml

/-! ### Classes of characters -/

/-- Whether the character is a blank within a line. -/
def isBlank (c : Char) : Bool :=
  c == ' ' || c == '\t'

/-- Whether the character ends a line. -/
def isBreak (c : Char) : Bool :=
  c == '\n' || c == '\u2028' || c == '\u2029'

/-- Whether the character is part of a gap between words. -/
def isGap (c : Char) : Bool :=
  isBlank c || isBreak c

/-- Whether a gap or the end of the document comes next. -/
def endsWord : List Char → Bool
  | [] => true
  | c :: _ => isGap c

/-- Whether the character parts or encloses nodes within brackets. -/
def isFlowMark (c : Char) : Bool :=
  c == ',' || c == '[' || c == ']' || c == '{' || c == '}'

/-- Whether the character may occur in the name of an anchor, of a directive or of a tag handle. -/
def isNameChar (c : Char) : Bool :=
  c.isAlphanum || c == '_' || c == '-'

/-- Whether one of the marks between documents comes next. -/
def isDocumentMark : List Char → Bool
  | '-' :: '-' :: '-' :: l => endsWord l
  | '.' :: '.' :: '.' :: l => endsWord l
  | _ => false

/-! ### Places -/

/-- A place in a document. -/
structure Place where
  rest : List Char
  /-- The number of characters before the place. -/
  index : Nat := 0
  /-- The number of lines before the line of the place. -/
  line : Nat := 0
  /-- The number of characters before the place in its line. -/
  column : Nat := 0

namespace Place

/-- The place one character on; the end of the document is not passed. -/
def next (p : Place) : Place :=
  match p.rest with
  | [] => p
  | c :: rest =>
    if isBreak c then ⟨rest, p.index + 1, p.line + 1, 0⟩
    else ⟨rest, p.index + 1, p.line, p.column + 1⟩

/-- The place so many characters on. -/
def after (p : Place) : Nat → Place
  | 0 => p
  | n + 1 => p.next.after n

/-- Whether one of the marks between documents stands at the place, which is then the start of a
line. -/
def atDocumentMark (p : Place) : Bool :=
  p.column == 0 && isDocumentMark p.rest

@[simp] theorem rest_next (p : Place) : p.next.rest = p.rest.drop 1 := by
  obtain ⟨rest, index, line, column⟩ := p
  cases rest with
  | nil => rfl
  | cons c rest => simp only [next]; split <;> rfl

@[simp] theorem rest_after (p : Place) (n : Nat) : (p.after n).rest = p.rest.drop n := by
  induction n generalizing p with
  | zero => rfl
  | succ n ih => rw [after, ih, rest_next, List.drop_drop, Nat.add_comm]

/-- At least one character is taken if any is left and the number is not zero. -/
theorem length_rest_after_lt {p : Place} {c : Char} {l : List Char} {n : Nat}
    (h : p.rest = c :: l) (hn : 0 < n) : (p.after n).rest.length < p.rest.length := by
  rw [rest_after, List.length_drop, h, List.length_cons]
  omega

end Place

/-! ### Readers -/

/-- A computation that takes characters from a document, or refuses it. -/
abbrev Reader := StateT Place Option

namespace Reader

/-- The next character, which stays. -/
def peek? : Reader (Option Char) := do
  return (← get).rest.head?

/-- Takes a given character if it is next, and tells whether it was. -/
def accept (c : Char) : Reader Bool := do
  if (← peek?) = some c then
    modify Place.next
    return true
  else return false

/-- Takes a given character. -/
def expect (c : Char) : Reader Unit := do
  unless ← accept c do failure

/-- Takes the characters of a class. -/
def takeWhile (q : Char → Bool) : Reader (List Char) := do
  let p ← get
  let l := p.rest.takeWhile q
  set (p.after l.length)
  return l

/-- Takes the characters of a class, of which there has to be one. -/
def takeSome (q : Char → Bool) : Reader (List Char) := do
  let l ← takeWhile q
  if l.isEmpty then failure
  return l

/-- Refuses the document unless a gap or the end comes next. -/
def expectGap : Reader Unit := do
  unless endsWord (← get).rest do failure

/-- Takes what is left of a line that holds nothing more than a comment. -/
def finishLine : Reader Unit := do
  let _ ← takeWhile isBlank
  if (← peek?) = some '#' then let _ ← takeWhile fun c => !isBreak c
  expectGap
  modify Place.next

end Reader
end Yaml
end TextualData
