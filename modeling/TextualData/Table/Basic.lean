import TextualData.Table.Column
import TextualData.Table.Records

/-!
# Tables

`Table.load` reads a table into one hash for each record, keyed by the names of the columns. Typed
cells are converted; an empty typed cell is left out of its row.
-/

namespace TextualData
namespace Table

/-- The text of a cell as its type sees it: trimmed if so asked, and empty if it is one of the
cells that count as empty. -/
def cellText (o : Options) (cell : String) : List Char :=
  let l := if o.trimCells then Text.trim Text.isBlank cell.toList else cell.toList
  if o.emptyValues.contains (String.ofList l) then [] else l

/-- A number as it is written in a cell, in the form of a numeral. -/
def numeralOf (o : Options) (l : List Char) : List Char :=
  let l := Text.trim Text.isBlank l
  let l := match o.groupingSeparator with
    | some grouping => l.filter (· != grouping)
    | none => l
  l.map fun c => if c = o.decimalSeparator then '.' else c

/-- The number of a cell, `none` if the cell is empty. -/
def number (o : Options) (column : Column) (row : Nat) (l : List Char) :
    Except LoadFault (Option Value) :=
  let numeral := numeralOf o l
  if numeral.isEmpty then .ok none
  else
    match Numeral.int64? numeral, Decimal.ofChars? numeral with
    | some n, _ => .ok (some (.integer n))
    | none, some d => .ok (some (.decimal d))
    | none, none => .error (.invalidCell (String.ofList numeral) "number" row column.name)

/-- The words for true. -/
def trueWords : List String := ["true", "yes", "y", "1"]

/-- The words for false. -/
def falseWords : List String := ["false", "no", "n", "0"]

/-- The truth value of a cell, `none` if the cell is empty. -/
def boolean (o : Options) (column : Column) (row : Nat) (l : List Char) :
    Except LoadFault (Option Value) :=
  let word := String.ofList (Text.lowerCase (Text.trim Text.isBlank l))
  let word :=
    if o.altTrue = some word then "true" else if o.altFalse = some word then "false" else word
  if word.isEmpty then .ok none
  else if trueWords.contains word then .ok (some (.boolean true))
  else if falseWords.contains word then .ok (some (.boolean false))
  else .error (.invalidCell word "boolean" row column.name)

/-- The value of a cell, `none` if it has none. -/
def cellValue (o : Options) (column : Column) (row : Nat) (cell : String) :
    Except LoadFault (Option Value) :=
  let l := cellText o cell
  match column.type with
  | .string => .ok (some (.string (String.ofList l)))
  | .number => number o column row l
  | .boolean => boolean o column row l

/-- Adds the cells of a record to a row, from left to right. -/
def addCells (o : Options) (row : Nat) : Hash → List (Column × String) → Except LoadFault Hash
  | h, [] => .ok h
  | h, (column, cell) :: cells => do
    match ← cellValue o column row cell with
    | some v => addCells o row (h.insert column.name v) cells
    | none => addCells o row h cells

/-- The hash of a record. It may not have more cells than there are columns. -/
def rowOf (o : Options) (columns : List Column) (row : Nat) (cells : List String) :
    Except LoadFault Hash :=
  if columns.length < cells.length then .error (.wideRow row)
  else addCells o row [] (columns.zip cells)

/-- The hashes of records, the first of which has the given number. -/
def rowsFrom (o : Options) (columns : List Column) (row : Nat) :
    List (List String) → Except LoadFault (List Hash)
  | [] => .ok []
  | cells :: records => do
    let h ← rowOf o columns row cells
    return h :: (← rowsFrom o columns (row + 1) records)

/-- The header cells, and the records that hold data. -/
def splitHeaders (headers : Headers) (records : List (List String)) :
    List String × List (List String) :=
  match headers with
  | .given cells => (cells, records)
  | .replaced cells => (cells, records.tail)
  | .firstRecord => (records.headD [], records.tail)

/-- A table that has been read. -/
structure Loaded where
  columns : List Column
  rows : List Hash

/-- Reads a table. Rows are numbered in messages as if a header row came first. -/
def load (o : Options) (l : List Char) : Except LoadFault Loaded := do
  let (cells, records) := splitHeaders o.headers (records o.separator l)
  let columns ← cells.mapM (Column.ofHeader o)
  return ⟨columns, ← rowsFrom o columns 2 records⟩

end Table
end TextualData
