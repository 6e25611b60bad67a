import TextualData.Document.Yaml.Place
import TextualData.Text.Quoted

/-!
# Tags

A tag is written in full between angle brackets, or as a handle with a suffix: the handle stands
for the beginning that a directive gives it. In both, octets may be written as a percent sign with
two digits, in groups that have the form of a character in UTF-8. A zero octet ends what it
belongs to.
-/

namespace TextualData
namespace Yaml

/-- The octets of a text in UTF-8. -/
def octetsOf (s : String) : List UInt8 :=
  s.toUTF8.toList

/-- The text with the given octets, if they are one in UTF-8. -/
def textOf? (octets : List UInt8) : Option String :=
  String.fromUTF8? ⟨octets.toArray⟩

/-! ### Tags as they are written -/

/-- Whether the character may occur in a tag; a comma and brackets may do so only where the tag is
enclosed. -/
def isTagChar (isEnclosed : Bool) (c : Char) : Bool :=
  isNameChar c ||
    [';', '/', '?', ':', '@', '&', '=', '+', '$', '.', '%', '!', '~', '*', Text.apostrophe, '(',
      ')'].contains c ||
    isEnclosed && [',', '[', ']'].contains c

/-- The number of octets that follow the first one of a character. -/
def furtherOctets? (octet : Nat) : Option Nat :=
  if octet < 0x80 then some 0
  else if 0xC0 ≤ octet && octet < 0xE0 then some 1
  else if 0xE0 ≤ octet && octet < 0xF0 then some 2
  else if 0xF0 ≤ octet && octet < 0xF8 then some 3
  else none

/-- The octets of a part of a tag; `further` is the number of octets that the current character
lacks. -/
def tagOctets? : (further : Nat) → List Char → Option (List UInt8)
  | 0, [] => some []
  | further, '%' :: a :: b :: l => do
    let octet := 16 * (← Text.hexValue? a) + (← Text.hexValue? b)
    let further ← match further with
      | 0 => furtherOctets? octet
      | n + 1 => if 0x80 ≤ octet && octet < 0xC0 then some n else none
    return octet.toUInt8 :: (← tagOctets? further l)
  | 0, c :: l => if c = '%' then none else (tagOctets? 0 l).map (octetsOf c.toString ++ ·)
  | _ + 1, _ => none

/-- Reads a part of a tag. -/
def tagPart (isEnclosed : Bool) : Reader (List UInt8) := do
  match tagOctets? 0 (← Reader.takeWhile (isTagChar isEnclosed)) with
  | some octets => return octets
  | none => failure

/-- Reads an exclamation mark with the name that follows it, and with the mark after the name. -/
def tagHandle : Reader (List Char) := do
  Reader.expect '!'
  let name ← Reader.takeWhile isNameChar
  return '!' :: name ++ if ← Reader.accept '!' then ['!'] else []

/-- Whether what begins a tag is a handle, which has a mark at its end. -/
def isHandle (l : List Char) : Bool :=
  1 < l.length && l.getLast? == some '!'

/-- What stands for the beginning of a tag, and how it goes on. The empty handle stands for
nothing. -/
structure WrittenTag where
  handle : String
  suffix : List UInt8
deriving DecidableEq

/-- Reads a tag that begins at the place. A comma may follow it within brackets. -/
def writtenTag (inBrackets : Bool) : Reader WrittenTag := do
  let p ← get
  let tag ←
    match p.rest with
    | '!' :: '<' :: _ =>
      set (p.after 2)
      let octets ← tagPart true
      if octets.isEmpty then failure
      Reader.expect '>'
      pure ⟨"", octets⟩
    | _ =>
      let first ← tagHandle
      let octets ← tagPart false
      if isHandle first then
        if octets.isEmpty then failure
        pure ⟨String.ofList first, octets⟩
      else
        let octets := octetsOf (String.ofList (first.drop 1)) ++ octets
        if octets.head?.all (· == 0) then pure ⟨"", octetsOf "!"⟩ else pure ⟨"!", octets⟩
  unless inBrackets && (← Reader.peek?) = some ',' do Reader.expectGap
  return tag

/-! ### The meaning of tags -/

/-- The beginnings that handles stand for. -/
abbrev TagHandles := List (String × List UInt8)

/-- The common beginning of the tags of the standard. -/
def standardStart : String := "tag:yaml.org,2002:"

/-- The handles that need no directive. -/
def standardHandles : TagHandles :=
  [("!", octetsOf "!"), ("!!", octetsOf standardStart)]

/-- A tag by its meaning. -/
inductive Tag where
  | boolean
  | integer
  | float
  | null
  | own (name : String)
  | other

/-- The tags whose meaning is known, in full. -/
def knownTags : List (String × Tag) :=
  [(standardStart ++ "bool", .boolean), (standardStart ++ "int", .integer),
   (standardStart ++ "float", .float), (standardStart ++ "null", .null)]

/-- The name of a tag of the document's own, given what follows its mark. A mark alone is a name,
and a second mark is left out. -/
def ownName : List Char → List Char
  | [] => ['!']
  | '!' :: c :: l => c :: l
  | l => l

/-- The octets up to a zero octet. -/
def beforeZero (octets : List UInt8) : List UInt8 :=
  octets.takeWhile (· != 0)

/-- The octets of a tag in full, if its handle stands for anything. -/
def WrittenTag.octets? (t : WrittenTag) (handles : TagHandles) : Option (List UInt8) :=
  if t.handle.isEmpty then some (beforeZero t.suffix)
  else (handles.lookup t.handle).map fun start => beforeZero start ++ beforeZero t.suffix

/-- The tag with the given octets. A tag of the document's own that is not a text counts for
nothing. -/
def Tag.ofOctets? (octets : List UInt8) : Option Tag :=
  match textOf? octets with
  | none => if (octetsOf "!").isPrefixOf octets then none else some .other
  | some s =>
    match s.toList with
    | '!' :: l => some (.own (String.ofList (ownName l)))
    | _ => some ((knownTags.lookup s).getD .other)

end Yaml
end TextualData
