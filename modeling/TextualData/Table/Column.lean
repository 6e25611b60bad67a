import TextualData.Table.Options
import TextualData.Text.Blank

/-!
# Columns of a table

A header cell names a column and may end with a colon and the type of its cells. `Column.ofHeader`
reads such a cell.
-/

namespace TextualData
namespace Table

/-- The types of cells. -/
inductive ColumnType where
  | string
  | number
  | boolean
deriving DecidableEq, Repr

/-- A column: the key of its cells, and their type. -/
structure Column where
  /-- The key under which its cells are stored. -/
  name : String
  type : ColumnType
deriving DecidableEq, Repr

namespace Column

/-- The text without the part from its first opening to its last closing parenthesis, if they
stand in this order. -/
def withoutParentheses (l : List Char) : List Char :=
  let before := l.takeWhile (· != '(')
  let inside := l.dropWhile (· != '(')
  if inside.contains ')' then before ++ (inside.reverse.takeWhile (· != ')')).reverse else l

/-- Cuts a text at its last colon, if it has one. -/
def splitType (l : List Char) : List Char × Option (List Char) :=
  if l.contains ':' then
    ((l.reverse.dropWhile (· != ':')).tail.reverse,
     some (l.reverse.takeWhile (· != ':')).reverse)
  else (l, none)

/-- The type with the given name. -/
def typeNamed (name : String) : Except LoadFault ColumnType :=
  if ["n", "number"].contains name then .ok .number
  else if ["s", "string"].contains name then .ok .string
  else if ["b", "boolean"].contains name then .ok .boolean
  else if ["d", "date", "t", "time", "dt", "datetime"].contains name then
    .error (.dateColumn name)
  else .error (.unknownColumnType name)

/-- Whether the character becomes an underscore in a normal name. -/
def isReplaced (c : Char) : Bool :=
  c == ' ' || c == '-' || c == ',' || c == ';' || c == ':'

/-- Makes one underscore of each run of them. -/
def collapse : List Char → List Char
  | '_' :: '_' :: l => collapse ('_' :: l)
  | c :: l => c :: collapse l
  | [] => []

/-- The normal form of a name. -/
def normalName (l : List Char) : List Char :=
  collapse ((Text.lowerCase l).map fun c => if isReplaced c then '_' else c)

/-- The column of a header cell. -/
def ofHeader (o : Options) (cell : String) : Except LoadFault Column := do
  let l := if o.normalizeHeaders then withoutParentheses cell.toList else cell.toList
  let (name, type) := splitType l
  let type ← match type with
    | none => pure .string
    | some type => typeNamed (String.ofList (Text.lowerCase (Text.trim Text.isBlank type)))
  let name := Text.trim Text.isBlank name
  return ⟨String.ofList (if o.normalizeHeaders then normalName name else name), type⟩

end Column
end Table
end TextualData
