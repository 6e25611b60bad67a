/-!
# Quoted text

`Text.quote` writes a string as a double-quoted literal. `Text.describe` names a character in a
message: quoted between apostrophes, or by its name where quoting would confuse.
-/

namespace TextualData
namespace Text

/-- The quotation mark. -/
def quotationMark : Char := '\x22'

/-- The apostrophe. -/
def apostrophe : Char := '\x27'

/-- The backslash, which opens an escape. -/
def backslash : Char := '\x5c'

/-- The form feed. -/
def formFeed : Char := '\x0c'

/-- The backspace. -/
def backspace : Char := '\x08'

/-- The digit of value `n` below sixteen, in lower case. -/
def hexDigit (n : Nat) : Char :=
  if n < 10 then Char.ofNat ('0'.toNat + n) else Char.ofNat ('a'.toNat + (n - 10))

/-- The value of a hexadecimal digit of either letter case. -/
def hexValue? (c : Char) : Option Nat :=
  if '0' ≤ c ∧ c ≤ '9' then some (c.toNat - '0'.toNat)
  else if 'a' ≤ c ∧ c ≤ 'f' then some (c.toNat - 'a'.toNat + 10)
  else if 'A' ≤ c ∧ c ≤ 'F' then some (c.toNat - 'A'.toNat + 10)
  else none

/-- The character with the code `n`, if `n` is a Unicode scalar value. -/
def scalar? (n : Nat) : Option Char :=
  if n.isValidChar then some (Char.ofNat n) else none

/-- A control character as a backslash, `u` and four hexadecimal digits. -/
def hexEscape (c : Char) : List Char :=
  [backslash, 'u', '0', '0', hexDigit (c.toNat / 16), hexDigit (c.toNat % 16)]

/-- The letter after the backslash in the short escape of a character, for those that have one. -/
def shortEscape? (c : Char) : Option Char :=
  if c = '\n' then some 'n'
  else if c = '\r' then some 'r'
  else if c = '\t' then some 't'
  else if c = backspace then some 'b'
  else if c = formFeed then some 'f'
  else none

/-- One character of a double-quoted literal. -/
def quoteChar (c : Char) : List Char :=
  if c = backslash ∨ c = quotationMark then [backslash, c]
  else
    match shortEscape? c with
    | some e => [backslash, e]
    | none => if c.toNat < 0x20 then hexEscape c else [c]

/-- The string as a double-quoted literal that reads back as the same string. -/
def quote (s : String) : String :=
  String.ofList (quotationMark :: (s.toList.flatMap quoteChar ++ [quotationMark]))

/-- The character for a message, quoted or by its name. -/
def describe (c : Char) : String :=
  if c = quotationMark then "quotation mark"
  else if c = apostrophe then "apostrophe-quote"
  else if c = backslash then enclosed [backslash, backslash]
  else
    match shortEscape? c with
    | some e => enclosed [backslash, e]
    | none => if c.toNat < 0x20 then enclosed (hexEscape c) else enclosed [c]
where
  /-- The characters between two apostrophes. -/
  enclosed (l : List Char) : String :=
    String.ofList (apostrophe :: (l ++ [apostrophe]))

end Text
end TextualData
