import TextualData.Text.Quoted
import TextualData.Text.Blank

/-!
# Records of a table

`Table.records` splits a text into records of cells. A separator stands between cells and a line
break after each record; empty lines are no records. A cell that begins with a quotation mark goes
on to the next one that is not doubled, with separators and line breaks in it, and what follows
its end belongs to it as it is.
-/

namespace TextualData
namespace Table

/-- The place in a record. -/
inductive Place where
  | record
  /-- At the beginning of a cell that is not the first. -/
  | cell
  /-- In a cell, outside of quotation marks. -/
  | plain
  /-- In a cell, inside of quotation marks. -/
  | quoted
  /-- After a quotation mark inside of quotation marks. -/
  | mark
deriving DecidableEq, Repr

/-- A record that is being read: its finished cells, last first, and the characters of the current
one, last first. -/
structure Draft where
  cells : List (List Char)
  cell : List Char

namespace Draft

/-- The record before anything of it is read. -/
def empty : Draft := ⟨[], []⟩

/-- Adds a character to the current cell. -/
def add (d : Draft) (c : Char) : Draft :=
  ⟨d.cells, c :: d.cell⟩

/-- Ends the current cell. -/
def endCell (d : Draft) : Draft :=
  ⟨d.cell.reverse :: d.cells, []⟩

/-- The cells of the finished record. -/
def finish (d : Draft) : List (List Char) :=
  d.endCell.cells.reverse

end Draft

/-- What a character does to a draft. -/
inductive Move where
  | continue (place : Place) (draft : Draft)
  | complete (record : List (List Char))

/-- Reads a character outside of quotation marks, where it has no special meaning other than to
separate. -/
def readPlain (separator c : Char) (d : Draft) : Move :=
  if c = separator then .continue .cell d.endCell
  else if Text.isLineBreak c then .complete d.finish
  else .continue .plain (d.add c)

/-- Reads the first character of a cell. -/
def readFirst (separator c : Char) (d : Draft) : Move :=
  if c = Text.quotationMark then .continue .quoted d else readPlain separator c d

/-- Reads a character of a record. -/
def read (separator : Char) (place : Place) (c : Char) (d : Draft) : Move :=
  match place with
  | .record => if Text.isLineBreak c then .continue .record d else readFirst separator c d
  | .cell => readFirst separator c d
  | .plain => readPlain separator c d
  | .quoted => if c = Text.quotationMark then .continue .mark d else .continue .quoted (d.add c)
  | .mark =>
    if c = Text.quotationMark then .continue .quoted (d.add c) else readPlain separator c d

/-- The records from a place on. -/
def recordsFrom (separator : Char) (place : Place) (d : Draft) :
    List Char → List (List (List Char))
  | [] => if place = .record then [] else [d.finish]
  | c :: l =>
    match read separator place c d with
    | .continue place d => recordsFrom separator place d l
    | .complete record => record :: recordsFrom separator .record .empty l

/-- The records of a text. A byte order mark in front is passed over. -/
def records (separator : Char) (l : List Char) : List (List String) :=
  let l := match l with
    | c :: rest => if c = Text.byteOrderMark then rest else c :: rest
    | [] => []
  (recordsFrom separator .record .empty l).map fun record => record.map String.ofList

end Table
end TextualData
