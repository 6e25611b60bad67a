import TextualData.Document.Yaml.Basic
import TextualData.Document.Yaml.Tag

/-!
# YAML scalars

What a scalar without quotes means by the core schema: null, truth values, integers in four
notations, doubles, and strings for all else. Digits after a leading zero make a string. A tag may
say what a scalar has to be, with or without quotes.
-/

namespace TextualData
namespace Yaml

/-- Whether the text is one of the words for null. -/
def isNullWord (s : String) : Bool :=
  ["", "~", "null", "Null", "NULL"].contains s

/-- The truth value that the text is a word for. -/
def boolean? (s : String) : Option Bool :=
  if ["true", "True", "TRUE"].contains s then some true
  else if ["false", "False", "FALSE"].contains s then some false
  else none

/-- The text without a sign in front. -/
def withoutSign : List Char → List Char
  | '+' :: l => l
  | '-' :: l => l
  | l => l

/-- Whether the text is a zero with further digits after it. -/
def isPaddedNumber (l : List Char) : Bool :=
  match withoutSign l with
  | '0' :: c :: l => (c :: l).all Char.isDigit
  | _ => false

/-- The value of digits in a base of at most sixteen. -/
def digits? (base : Nat) (l : List Char) : Option Nat :=
  if l.isEmpty then none
  else
    (l.mapM Text.hexValue?).bind fun digits =>
      if digits.all (· < base) then some (digits.foldl (fun n d => base * n + d) 0) else none

/-- The value of an unsigned integer, with a mark for another base than ten in front. -/
def unsigned? : List Char → Option Nat
  | '0' :: 'x' :: l => digits? 16 l
  | '0' :: 'o' :: l => digits? 8 l
  | '0' :: 'b' :: l => digits? 2 l
  | l => digits? 10 l

/-- The value of an integer. -/
def integer? (l : List Char) : Option Int :=
  if isPaddedNumber l then none
  else
    match l with
    | '-' :: l => (unsigned? l).map fun n => -(n : Int)
    | '+' :: l => (unsigned? l).map fun n => (n : Int)
    | l => (unsigned? l).map fun n => (n : Int)

/-- The value of a double in decimal notation, if it is finite. Its exponent may have any size. -/
def finite? (l : List Char) : Option Float := do
  let isMantissa (c : Char) := !Decimal.isExponentMark c
  let exponent ← match (withoutSign l).dropWhile isMantissa with
    | [] => some 0
    | _ :: e => Numeral.integer? e
  let (digits, places) := Decimal.significand ((withoutSign l).takeWhile isMantissa)
  let f := Decimal.nearest (← Numeral.natural? digits) (exponent - places)
  if f.isInf then none
  return if l.head? = some '-' then -f else f

/-- The value of a double. -/
def float? (l : List Char) : Option Float :=
  let s := String.ofList l
  if [".inf", ".Inf", ".INF", "+.inf", "+.Inf", "+.INF"].contains s then some (1.0 / 0.0)
  else if ["-.inf", "-.Inf", "-.INF"].contains s then some (-1.0 / 0.0)
  else if [".nan", ".NaN", ".NAN"].contains s then some (0.0 / 0.0)
  else finite? l

/-- The number of words of 128 bits. -/
def wideWordCount : Nat := 0x100000000000000000000000000000000

/-- The node for an integer of at most 64 bits. -/
def integerNode? (n : Int) : Option Yaml :=
  if Int64.minValue.toInt ≤ n ∧ n < UInt64.size then some (.number (.whole n)) else none

/-- The node for a text that is no integer: a double or a string. -/
def floatOrString (s : String) : Yaml :=
  match float? s.toList with
  | some f => .number (.float f)
  | none => .string s

/-- The meaning of a scalar without quotes, `none` if it is refused. Integers of more than 64 bits
are refused up to 128 bits, and are doubles beyond. -/
def ofPlain? (s : String) : Option Yaml :=
  if isNullWord s then some .null
  else
    match boolean? s, integer? s.toList with
    | some b, _ => some (.boolean b)
    | none, some n =>
      if -wideWordCount ≤ 2 * n ∧ n < wideWordCount then integerNode? n
      else some (floatOrString s)
    | none, none => some (if isPaddedNumber s.toList then .string s else floatOrString s)

/-- The meaning of a scalar without a tag. One that is not plain is a string. -/
def ofUntagged? (isPlain : Bool) (s : String) : Option Yaml :=
  if isPlain then ofPlain? s else some (.string s)

/-- The meaning of a scalar, `none` if it is refused or its tag does not fit. A tag of the
document's own leaves the meaning as it is, and an unknown one makes a string. -/
def ofScalar? (tag : Option Tag) (isPlain : Bool) (s : String) : Option Yaml :=
  match tag with
  | none => ofUntagged? isPlain s
  | some .boolean => (boolean? s).map .boolean
  | some .integer => (integer? s.toList).bind integerNode?
  | some .float => (float? s.toList).map fun f => .number (.float f)
  | some .null => if isNullWord s && s != "" then some .null else none
  | some (.own name) => (ofUntagged? isPlain s).map (.tagged name)
  | some .other => some (.string s)

end Yaml
end TextualData
