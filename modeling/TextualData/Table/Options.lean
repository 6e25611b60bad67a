import TextualData.Loader.Option
import TextualData.Text.LowerCase
import TextualData.Value.Basic

/-!
# Options of tables

`Table.Options.ofHash` reads the options of a table, which say where the header cells come from
and how cells are written.
-/

namespace TextualData
namespace Table

/-- Where the header cells come from. -/
inductive Headers where
  | firstRecord
  /-- They are given, and the file has none. -/
  | given (cells : List String)
  /-- They are given in place of those of the first record. -/
  | replaced (cells : List String)
deriving DecidableEq, Repr

/-- How a table is read. -/
structure Options where
  headers : Headers := .firstRecord
  /-- Whether the names of columns are brought into a normal form. -/
  normalizeHeaders : Bool := false
  /-- Whether blanks at the ends of cells are taken off. -/
  trimCells : Bool := false
  emptyValues : List String := []
  separator : Char := ';'
  /-- A character that may stand between the digits of a number. -/
  groupingSeparator : Option Char := none
  /-- The character before the fraction of a number. -/
  decimalSeparator : Char := '.'
  /-- A further word for true, in lower case. -/
  altTrue : Option String := none
  /-- A further word for false, in lower case. -/
  altFalse : Option String := none

namespace Options

/-- The names of all options, as a message lists them. -/
def supported : String :=
  "encoding, separator, headers, replaceHeaders, normalizeHeaders, trimCells, emptyValue, " ++
    "groupingSeparator, decimalSeparator, altTrue, altFalse"

/-- Sets the header cells, which only one option may do. -/
def setHeaders (o : Options) (headers : Except LoadFault Headers) : Except LoadFault Options :=
  match o.headers with
  | .firstRecord => headers.map fun headers => { o with headers := headers }
  | _ => .error .conflictingHeaders

/-- The character between cells, which has to be ASCII. -/
def separatorOf (c : Char) : Except LoadFault Char :=
  if c.toNat < 0x80 then .ok c else .error (.wideSeparator c)

/-- A word that a cell is compared with, in lower case. -/
def word (name : String) (v : Value) : Except LoadFault String := do
  return String.ofList (Text.lowerCase (← LoaderOption.string name v).toList)

/-- Sets one option. -/
def set (o : Options) (name : String) (v : Value) : Except LoadFault Options := do
  match name with
  | "headers" => o.setHeaders ((LoaderOption.strings name v).map .given)
  | "replaceHeaders" => o.setHeaders ((LoaderOption.strings name v).map .replaced)
  | "normalizeHeaders" => return { o with normalizeHeaders := ← LoaderOption.boolean name v }
  | "trimCells" => return { o with trimCells := ← LoaderOption.boolean name v }
  | "emptyValue" => return { o with emptyValues := ← LoaderOption.stringsOrString name v }
  | "separator" => return { o with separator := ← separatorOf (← LoaderOption.character name v) }
  | "groupingSeparator" =>
    return { o with groupingSeparator := some (← LoaderOption.character name v) }
  | "decimalSeparator" => return { o with decimalSeparator := ← LoaderOption.character name v }
  | "altTrue" => return { o with altTrue := some (← word name v) }
  | "altFalse" => return { o with altFalse := some (← word name v) }
  | _ => throw (.unknownOption name supported)

/-- Reads options in their order. -/
def ofHash (h : Hash) : Except LoadFault Options :=
  h.foldlM (fun o e => o.set e.1 e.2) {}

end Options
end Table
end TextualData
