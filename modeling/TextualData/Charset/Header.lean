import TextualData.Charset.SingleByte

/-!
# Charset headers

A text may declare its encoding in a comment that is the first thing in it, such as
`# encoding: ISO-8859-2`. `Charset.declared?` finds the name in the raw bytes.
-/

namespace TextualData
namespace Charset

/-- Whether the byte is a blank of a header. -/
def isHeaderBlank (b : UInt8) : Bool :=
  0x09 ≤ b && b ≤ 0x0D || 0x1C ≤ b && b ≤ 0x20

/-- Whether the byte is a blank that does not end the line. -/
def isInlineBlank (b : UInt8) : Bool :=
  isHeaderBlank b && b != 0x0A && b != 0x0D

/-- Whether the byte is an ASCII letter. -/
def isLetter (b : UInt8) : Bool :=
  0x41 ≤ b && b ≤ 0x5A || 0x61 ≤ b && b ≤ 0x7A

/-- The words that may introduce the name of an encoding, in lower case. -/
def headerWords : List (List Char) :=
  ["encoding".toList, "charset".toList]

/-- The bytes after the number sign that opens a header; a byte order mark may precede it. -/
def afterNumberSign? : List UInt8 → Option (List UInt8)
  | 0x23 :: l => some l
  | 0xEF :: 0xBB :: 0xBF :: 0x23 :: l => some l
  | _ => none

/-- The bytes after one of the header words, in any letter case. -/
def afterWord? (l : List UInt8) : Option (List UInt8) :=
  if headerWords.contains ((l.takeWhile isLetter).map fun b => (latin1Char b).toLower) then
    some (l.dropWhile isLetter)
  else none

/-- The bytes after the colon at the start. -/
def afterColon? : List UInt8 → Option (List UInt8)
  | 0x3A :: l => some l
  | _ => none

/-- The name of the encoding that the header of a text declares, if it has a header. -/
def declared? (bytes : List UInt8) : Option String := do
  let l ← afterNumberSign? (bytes.dropWhile isHeaderBlank)
  let l ← afterWord? (l.dropWhile isInlineBlank)
  let l ← afterColon? (l.dropWhile isInlineBlank)
  let name := (l.dropWhile isInlineBlank).takeWhile fun b => !isHeaderBlank b
  if name.isEmpty then none else some (String.ofList (name.map latin1Char))

end Charset
end TextualData
