import TextualData.Text.Offset
import TextualData.Text.Blank
import TextualData.Text.Tabs

/-!
# Locations in a text

A `Location` is a byte offset in a text, kept with the text so that a message can quote the line
and point at the place. `Location.lineAndColumn` counts lines and columns from one, a carriage
return followed by a line feed being one line break; `Location.render` is the text added to an
error message.
-/

namespace TextualData

/-- A place in a text: the whole text, a byte offset, and the file it comes from, if known. -/
structure Location where
  text : String
  position : Nat
  file : Option String
deriving DecidableEq, Repr

namespace Location

/-- The tab width assumed when a line is quoted. -/
def tabWidth : Nat := 8

/-- The greatest number of columns of a quoted line. -/
def quotedWidth : Nat := 56

/-- A line seen from a place in it. -/
structure Row where
  /-- The number of the line, counted from one. -/
  number : Nat
  /-- The characters of the line before the place, in order. -/
  before : List Char
  /-- The characters of the line from the place to its line break, in order. -/
  after : List Char
deriving DecidableEq, Repr

/-- Whether `c` begins a new line when it follows `last`: after a line feed always, and after a
carriage return unless the two are one line break. -/
def beginsLine (last : Option Char) (c : Char) : Bool :=
  last == some '\n' || last == some '\r' && c != '\n'

/-- Walks over the characters before a place and keeps the line number, the current line so far
(nearest character first) and the last character. -/
def walk (state : Nat × List Char × Option Char) (c : Char) : Nat × List Char × Option Char :=
  let (number, line, last) := state
  if beginsLine last c then (number + 1, [c], some c) else (number, c :: line, some c)

/-- The line of a place, given the characters before it in order and those after it. The place
between a carriage return and its line feed counts as the place of the carriage return, and the
end of the text never begins a line. -/
def rowAt (before after : List Char) : Row :=
  let (number, line, last) := before.foldl walk (1, [], none)
  match after with
  | [] => ⟨number, line.reverse, []⟩
  | c :: _ =>
    if beginsLine last c then ⟨number + 1, [], after.takeWhile fun c => !Text.isLineBreak c⟩
    else if last = some '\r' then ⟨number, line.tail.reverse, []⟩
    else ⟨number, line.reverse, after.takeWhile fun c => !Text.isLineBreak c⟩

/-- The line of the location; a position after the end of the text counts as the end. -/
def row (l : Location) : Row :=
  let (before, after) := Text.splitAtByte l.position l.text.toList
  rowAt before.reverse after

/-- The line and the column of the location, both counted from one. -/
def lineAndColumn (l : Location) : Nat × Nat :=
  (l.row.number, l.row.before.length + 1)

/-- The marks that stand for what was cut off a quoted line. -/
def ellipsis : List Char := ['.', '.', '.']

/-- Shortens the two parts of a quoted line, before and from the place, to `quotedWidth` columns
together: first at the right, where at least six columns stay, then at the left. -/
def clip (left right : List Char) : List Char × List Char :=
  if left.length + right.length ≤ quotedWidth then (left, right)
  else
    let kept := max 6 (right.length - (left.length + right.length - quotedWidth))
    let right := if kept < right.length then right.take (kept - 3) ++ ellipsis else right
    if left.length + right.length ≤ quotedWidth then (left, right)
    else (ellipsis ++ left.drop (left.length + right.length - quotedWidth + 3), right)

/-- The quoted line, with a caret under the place in the line below. -/
def quoteRow (r : Row) : List Char :=
  let left := Text.expandTabs tabWidth 0 r.before
  let (left, right) := clip left (Text.expandTabs tabWidth left.length r.after)
  left ++ right ++ '\n' :: (List.replicate left.length ' ' ++ ['^'])

/-- The location as it stands at the end of an error message, with a line break before it. -/
def render (l : Location) : String :=
  let subject := l.file.getD "the text"
  let size := l.text.utf8ByteSize
  if l.position = size then s!"\nError location: The very end of {subject}."
  else if size < l.position then s!"\nError location: ??? (after the end of {subject})"
  else
    let (line, column) := l.lineAndColumn
    let place := match l.file with
      | some file => s!" in {file}"
      | none => ""
    let quoted :=
      if l.row.before.isEmpty && l.row.after.isEmpty then
        "(Can't show the line because it is empty.)"
      else String.ofList (quoteRow l.row)
    s!"\nError location: line {line}, column {column}{place}:\n{quoted}"

end Location
end TextualData
