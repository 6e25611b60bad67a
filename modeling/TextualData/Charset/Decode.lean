import TextualData.Charset.Header
import TextualData.Charset.Label
import TextualData.Charset.Unicode
import TextualData.Error.Basic

/-!
# Decoding text

`Charset.decode` reads bytes in an encoding given by its label. Plain `UTF-16` takes the order of
its bytes from a byte order mark. `Charset.decodeSource` reads the text of a file, which may
declare its own encoding.
-/

namespace TextualData
namespace Charset

/-- The characters of bytes in an encoding. Malformed bytes are replaced, and a byte order mark is
a character like any other. -/
def characters : Charset → List UInt8 → List Char
  | utf8, bytes => Utf8.decode bytes
  | utf16le, bytes => Utf16.decode false bytes
  | utf16be, bytes => Utf16.decode true bytes
  | windows1252, bytes => bytes.map windows1252Char
  | latin2, bytes => bytes.map latin2Char
  | latin9, bytes => bytes.map latin9Char
  | userDefined, bytes => bytes.map userDefinedChar

/-- The encoding with a label. -/
def lookup (label : String) : Except Error Charset :=
  match ofLabel? label with
  | some c => .ok c
  | none => .error (.encoding label)

/-- Whether a label stands for UTF-16 in either order of bytes. -/
def isOpenUtf16 (label : String) : Bool :=
  (Text.trim Text.isWhiteSpace label.toList).map Char.toLower == ['u', 't', 'f', '-', '1', '6']

/-- The characters of UTF-16 whose order of bytes a mark may tell; without one the high byte comes
first. -/
def openUtf16Characters : List UInt8 → List Char
  | 0xFE :: 0xFF :: bytes => characters utf16be bytes
  | 0xFF :: 0xFE :: bytes => characters utf16le bytes
  | bytes => characters utf16be bytes

/-- Reads bytes in the encoding with a label. -/
def decode (bytes : List UInt8) (label : String) : Except Error String :=
  if isOpenUtf16 label then .ok (String.ofList (openUtf16Characters bytes))
  else (lookup label).map fun c => String.ofList (c.characters bytes)

/-- Reads the text of a file in the encoding that its header declares, or else in the given
one. -/
def decodeSource (bytes : List UInt8) (label : String) : Except Error String :=
  decode bytes ((declared? bytes).getD label)

end Charset

namespace Text

/-- The characters without a byte order mark in front. -/
def withoutByteOrderMark : List Char → List Char
  | c :: l => if c = byteOrderMark then l else c :: l
  | [] => []

end Text
end TextualData
