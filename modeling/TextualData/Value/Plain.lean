import TextualData.Decimal.Nearest
import TextualData.Value.Dump

/-!
# Plain data

`Plain` is the tree that other programs and templates see: numbers are integers or doubles, and
what was put off is the text it stands for.
-/

namespace TextualData

/-- A tree of plain data. -/
inductive Plain where
  | text (s : String)
  | integer (n : Int64)
  /-- A number with a fraction, or beyond 64 bits. -/
  | float (f : Float)
  | flag (b : Bool)
  | list (items : List Plain)
  | record (fields : List (String × Plain))

namespace Value

mutual

/-- The plain form of a value: decimals become doubles, unresolved calls and fragments their text.
There is none if the text of a call stops the program. -/
def toPlain? : Value → Option Plain
  | string s => some (.text s)
  | integer n => some (.integer n)
  | decimal d => some (.float d.toFloat)
  | boolean b => some (.flag b)
  | sequence items => do return .list (← toPlainItems? items)
  | hash entries => do return .record (← toPlainEntries? entries)
  | call name params => do return .text (← (call name params).dump?)
  | fragment f => some (.text f.content)

/-- The plain forms of values in order. -/
def toPlainItems? : List Value → Option (List Plain)
  | [] => some []
  | v :: vs => do return (← toPlain? v) :: (← toPlainItems? vs)

/-- The plain forms of values under keys. -/
def toPlainEntries? : List (String × Value) → Option (List (String × Plain))
  | [] => some []
  | (k, v) :: es => do return (k, ← toPlain? v) :: (← toPlainEntries? es)

end

end Value
end TextualData
