import TextualData.Document.Number

/-!
# JSON documents

`Json.parse?` reads a JSON document into a tree, and `Json.toValue` turns the tree into a value.
A member given twice keeps its place and takes its last value; arrays and objects nest at most
127 deep; the null has no value.
-/

namespace TextualData

/-- The tree of a JSON document. -/
inductive Json where
  | null
  | boolean (b : Bool)
  | number (n : DocumentNumber)
  | string (s : String)
  | array (items : List Json)
  | object (members : List (String × Json))

namespace Json

mutual

/-- The value of a tree. -/
def toValue : Json → Except LoadFault Value
  | null => .error .jsonNull
  | boolean b => .ok (.boolean b)
  | number n => n.toValue
  | string s => .ok (.string s)
  | array items => do return .sequence (← toValues items)
  | object members => do return .hash (← toEntries members)

/-- The values of trees in order. -/
def toValues : List Json → Except LoadFault (List Value)
  | [] => .ok []
  | t :: ts => do
    let v ← toValue t
    return v :: (← toValues ts)

/-- The values of members in order. -/
def toEntries : List (String × Json) → Except LoadFault (List (String × Value))
  | [] => .ok []
  | (name, t) :: ts => do
    let v ← toValue t
    return (name, v) :: (← toEntries ts)

end

/-- A reader takes characters from the start of a text, or fails. -/
abbrev Reader := StateT (List Char) Option

namespace Reader

/-- The next character, which stays. -/
def peek? : Reader (Option Char) := do
  return (← get).head?

/-- Takes the next character. -/
def next : Reader Char := do
  match ← get with
  | [] => failure
  | c :: l =>
    set l
    return c

/-- Takes the characters of a class. -/
def takeWhile (p : Char → Bool) : Reader (List Char) := do
  let l ← get
  set (l.dropWhile p)
  return l.takeWhile p

/-- Takes a given character. -/
def expect (c : Char) : Reader Unit := do
  unless (← next) = c do failure

/-- Takes a given word. -/
def expectWord : List Char → Reader Unit
  | [] => return
  | c :: l => do
    expect c
    expectWord l

/-- Takes blanks. -/
def blanks : Reader Unit := do
  let _ ← takeWhile fun c => c == ' ' || c == '\t' || c == '\n' || c == '\r'

end Reader

open Reader

/-! ### Numbers -/

/-- Multiplies by a power of ten in double arithmetic; fails if the product is infinite. Small
powers are divided out 308 at a time. -/
def scaled : (bound : Nat) → Float → Int → Option Float
  | 0, f, _ => some f
  | bound + 1, f, power =>
    if power.natAbs ≤ 308 then
      if 0 ≤ power then
        let f := f * Decimal.powerOfTen power.natAbs
        if f.isInf then none else some f
      else some (f / Decimal.powerOfTen power.natAbs)
    else if f == 0 then some f
    else if 0 ≤ power then none
    else scaled bound (f / Decimal.powerOfTen 308) (power + 308)

/-- The double for a significand and a power of ten. -/
def floatOf (negative : Bool) (significand : Nat) (power : Int) : Reader DocumentNumber :=
  -- After three steps every significand within 64 bits has become zero.
  match scaled 4 significand.toFloat power with
  | some f => return .float (if negative then -f else f)
  | none => failure

/-- Reads on digits into a significand as long as it fits in 64 bits. Gives the significand and
the number of digits that were read and that were left. -/
def accumulate (significand : Nat) : List Char → Nat × Nat × Nat
  | [] => (significand, 0, 0)
  | c :: l =>
    let grown := significand * 10 + (c.toNat - '0'.toNat)
    if grown < UInt64.size then
      let (n, read, left) := accumulate grown l
      (n, read + 1, left)
    else (significand, 0, l.length + 1)

/-- The greatest exponent that is calculated with. -/
def greatestExponent : Nat := 0x7FFFFFFF

/-- Reads the exponent of a number after its mark. -/
def exponent (negative : Bool) (significand : Nat) (power : Int) : Reader DocumentNumber := do
  let _ ← next
  let sign ← takeWhile fun c => c == '+' || c == '-'
  let digits ← takeWhile Char.isDigit
  if 1 < sign.length || digits.isEmpty then failure
  let size := Nat.ofDigitChars 10 digits 0
  let down := sign == ['-']
  if greatestExponent < size then
    if significand ≠ 0 && !down then failure
    return .float (if negative then -0.0 else 0.0)
  floatOf negative significand (if down then power - size else power + size)

/-- Whether an exponent follows. -/
def atExponent : Reader Bool := do
  match ← peek? with
  | some c => return c == 'e' || c == 'E'
  | none => return false

/-- Reads the fraction of a number from its point on. Digits beyond 64 bits are dropped. -/
def fraction (negative : Bool) (significand : Nat) (power : Int) : Reader DocumentNumber := do
  let _ ← next
  let digits ← takeWhile Char.isDigit
  if digits.isEmpty then failure
  let (significand, read, _) := accumulate significand digits
  let power := power - read
  if ← atExponent then exponent negative significand power
  else floatOf negative significand power

/-- A number without fraction and exponent. The negative zero is a double, and so is a negative
number beyond 64 bits. -/
def wholeNumber (negative : Bool) (significand : Nat) : DocumentNumber :=
  if !negative then .whole significand
  else if significand = 0 || -(significand : Int) < Int64.minValue.toInt then
    .float (-significand.toFloat)
  else .whole (-significand)

/-- Reads a number. Digits of its whole part beyond 64 bits count as zeros. -/
def readNumber : Reader DocumentNumber := do
  let negative := (← peek?) == some '-'
  if negative then let _ ← next
  let digits ← takeWhile Char.isDigit
  match digits with
  | [] => failure
  | ['0'] => pure ()
  | c :: _ => if c = '0' then failure
  let (significand, _, left) := accumulate 0 digits
  if (← peek?) = some '.' then fraction negative significand left
  else if ← atExponent then exponent negative significand left
  else if left = 0 then return wholeNumber negative significand
  else floatOf negative significand left

/-! ### Strings -/

/-- Reads the four hexadecimal digits of a numeric escape. -/
def hexUnit : Reader Nat := do
  let l ← get
  match (l.take 4).mapM Text.hexValue? with
  | some [a, b, c, d] =>
    set (l.drop 4)
    return ((a * 16 + b) * 16 + c) * 16 + d
  | _ => failure

/-- Reads a numeric escape after its letter. Surrogates stand in pairs. -/
def numericEscape : Reader Char := do
  let unit ← hexUnit
  if 0xD800 ≤ unit && unit ≤ 0xDBFF then
    expect '\\'
    expect 'u'
    let trail ← hexUnit
    unless 0xDC00 ≤ trail && trail ≤ 0xDFFF do failure
    return Char.ofNat (0x10000 + (unit - 0xD800) * 0x400 + (trail - 0xDC00))
  match Text.scalar? unit with
  | some c => return c
  | none => failure

/-- Reads an escape after its backslash. -/
def escape : Reader Char := do
  let c ← next
  if c = Text.quotationMark ∨ c = Text.backslash ∨ c = '/' then return c
  else if c = 'b' then return Text.backspace
  else if c = 'f' then return Text.formFeed
  else if c = 'n' then return '\n'
  else if c = 'r' then return '\r'
  else if c = 't' then return '\t'
  else if c = 'u' then numericEscape
  else failure

/-- Reads a string from within, up to and with its closing quotation mark. -/
def stringBody : (bound : Nat) → Reader (List Char)
  | 0 => failure
  | bound + 1 => do
    let c ← next
    if c = Text.quotationMark then return []
    else if c = Text.backslash then
      let e ← escape
      return e :: (← stringBody bound)
    else if c.toNat < 0x20 then failure
    else return c :: (← stringBody bound)

/-- Reads a string. -/
def readString : Reader String := do
  expect Text.quotationMark
  let l ← get
  return String.ofList (← stringBody (l.length + 1))

/-! ### Trees -/

/-- The depth at which nesting is refused. -/
def depthLimit : Nat := 128

mutual

/-- Reads a tree. The first number bounds the recursion, the second the nesting. -/
def tree : Nat → (depth : Nat) → Reader Json
  | 0, _ => failure
  | bound + 1, depth => do
    blanks
    match ← peek? with
    | none => failure
    | some c =>
      if c = 'n' then
        expectWord ['n', 'u', 'l', 'l']
        return .null
      else if c = 't' then
        expectWord ['t', 'r', 'u', 'e']
        return .boolean true
      else if c = 'f' then
        expectWord ['f', 'a', 'l', 's', 'e']
        return .boolean false
      else if c = Text.quotationMark then return .string (← readString)
      else if c = '[' then
        if depth ≤ 1 then failure
        let _ ← next
        blanks
        if (← peek?) = some ']' then
          let _ ← next
          return .array []
        else return .array (← items bound (depth - 1))
      else if c = '{' then
        if depth ≤ 1 then failure
        let _ ← next
        blanks
        if (← peek?) = some '}' then
          let _ ← next
          return .object []
        else return .object (← members bound (depth - 1) [])
      else return .number (← readNumber)

/-- Reads the items of an array, up to and with its closing bracket. -/
def items : Nat → (depth : Nat) → Reader (List Json)
  | 0, _ => failure
  | bound + 1, depth => do
    let t ← tree bound depth
    blanks
    let c ← next
    if c = ']' then return [t]
    else if c = ',' then return t :: (← items bound depth)
    else failure

/-- Reads the members of an object, up to and with its closing brace, and adds them to those read
before. -/
def members : Nat → (depth : Nat) → Entries Json → Reader (Entries Json)
  | 0, _, _ => failure
  | bound + 1, depth, read => do
    blanks
    let name ← readString
    blanks
    expect ':'
    let t ← tree bound depth
    let read := read.insert name t
    blanks
    let c ← next
    if c = '}' then return read
    else if c = ',' then members bound depth read
    else failure

end

/-- The tree of a JSON document, `none` if the text is not one. -/
def parse? (text : String) : Option Json := do
  let l := text.toList
  let (t, rest) ← (do
    let t ← tree (2 * l.length + 2) depthLimit
    blanks
    return t : Reader Json).run l
  if rest.isEmpty then some t else none

end Json
end TextualData
