import TextualData.Document.Yaml.Tag

/-!
# Tokens of YAML

A `Token` is a mark or a scalar of a document. Some tokens are not written: they tell where
indentation begins and ends a block, and which node turned out to be the key of an entry.
-/

namespace TextualData
namespace Yaml

/-- A part of a document. -/
inductive Token where
  /-- The directive that gives the version of the notation. -/
  | version (major minor : Nat)
  /-- The directive that gives a handle its meaning. -/
  | tagHandle (handle : String) (start : List UInt8)
  | documentStart
  | documentEnd
  /-- The beginning of a sequence that is a block. -/
  | blockSequence
  /-- The beginning of a mapping that is a block. -/
  | blockMapping
  | blockEnd
  | openBracket
  | closeBracket
  | openBrace
  | closeBrace
  | item
  /-- The comma between items within brackets. -/
  | comma
  | key
  /-- The mark between a key and its value. -/
  | value
  | reference (name : String)
  | anchor (name : String)
  | tag (t : WrittenTag)
  /-- A scalar, which is plain or has a style that makes it a string. -/
  | scalar (isPlain : Bool) (text : String)
deriving DecidableEq

namespace Token

/-- Whether the token is a directive. -/
def isDirective : Token → Bool
  | version _ _ => true
  | tagHandle _ _ => true
  | _ => false

end Token

/-! ### Directives and names -/

/-- The greatest number of digits in a part of a version number. -/
def versionDigits : Nat := 9

/-- Reads a part of a version number. -/
def versionPart : Reader Nat := do
  let digits ← Reader.takeSome Char.isDigit
  if versionDigits < digits.length then failure
  return Nat.ofDigitChars 10 digits 0

/-- Reads a directive after its mark, to the end of its line. -/
def directive : Reader Token := do
  let name ← Reader.takeSome isNameChar
  Reader.expectGap
  let _ ← Reader.takeWhile isBlank
  let token ←
    if name = "YAML".toList then
      let major ← versionPart
      Reader.expect '.'
      pure (.version major (← versionPart))
    else if name = "TAG".toList then
      let handle ← tagHandle
      unless isHandle handle || handle = ['!'] do failure
      let _ ← Reader.takeSome isBlank
      let start ← tagPart true
      if start.isEmpty then failure
      Reader.expectGap
      pure (.tagHandle (String.ofList handle) start)
    else failure
  Reader.finishLine
  return token

/-- Reads a name after its mark. -/
def anchorName : Reader String := do
  let name ← Reader.takeSome isNameChar
  match ← Reader.peek? with
  | some c =>
    unless isGap c || ['?', ':', ',', ']', '}', '%', '@', '\x60'].contains c do failure
  | none => pure ()
  return String.ofList name

end Yaml
end TextualData
