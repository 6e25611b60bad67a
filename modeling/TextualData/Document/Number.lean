import TextualData.Decimal.Nearest
import TextualData.Error.Loading

/-!
# Numbers of documents

JSON and YAML documents hold whole numbers and doubles. As a value, a whole number within 64 bits
is an integer; any other number is the decimal that its shortest text denotes.
-/

namespace TextualData

/-- A number in a document. -/
inductive DocumentNumber where
  | whole (n : Int)
  | float (f : Float)

namespace DocumentNumber

/-- The text of a double without a decimal form. -/
def specialText (f : Float) : String :=
  if f.isNaN then ".nan" else if f < 0 then "-.inf" else ".inf"

/-- The number as a value. -/
def toValue : DocumentNumber → Except LoadFault Value
  | whole n =>
    match Numeral.fit64? n with
    | some n => .ok (.integer n)
    | none => .ok (.decimal ⟨n, 0⟩)
  | float f =>
    match Decimal.ofFloat? f with
    | some d => .ok (.decimal d)
    | none => .error (.unrepresentableNumber (specialText f))

end DocumentNumber
end TextualData
