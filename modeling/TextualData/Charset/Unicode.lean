import TextualData.Text.Quoted

/-!
# Decoding UTF-8 and UTF-16

Both decoders read one byte at a time and replace what is malformed by U+FFFD: in UTF-8 each
longest beginning of a character that cannot be completed, in UTF-16 each lone surrogate and a
single byte at the end.
-/

namespace TextualData

/-- The character that stands for malformed input. -/
def replacementChar : Char := '\uFFFD'

/-- A character by its code; malformed if there is none. -/
def charOfCode (n : Nat) : Char :=
  (Text.scalar? n).getD replacementChar

namespace Utf8

/-- A character of which some bytes have been read. -/
structure Partial where
  needed : Nat
  code : Nat
  lower : UInt8 := 0x80
  upper : UInt8 := 0xBF
deriving DecidableEq, Repr

/-- Reads the first byte of a character. -/
def start (b : UInt8) : List Char × Option Partial :=
  let n := b.toNat
  if b ≤ 0x7F then ([Char.ofNat n], none)
  else if b < 0xC2 then ([replacementChar], none)
  else if b ≤ 0xDF then ([], some { needed := 1, code := n - 0xC0 })
  else if b ≤ 0xEF then
    ([], some { needed := 2, code := n - 0xE0, lower := if b = 0xE0 then 0xA0 else 0x80,
                upper := if b = 0xED then 0x9F else 0xBF })
  else if b ≤ 0xF4 then
    ([], some { needed := 3, code := n - 0xF0, lower := if b = 0xF0 then 0x90 else 0x80,
                upper := if b = 0xF4 then 0x8F else 0xBF })
  else ([replacementChar], none)

/-- Reads one byte: the characters it completes, and the character it leaves open. -/
def step (state : Option Partial) (b : UInt8) : List Char × Option Partial :=
  match state with
  | none => start b
  | some p =>
    if p.lower ≤ b && b ≤ p.upper then
      let code := p.code * 64 + (b.toNat - 0x80)
      if p.needed ≤ 1 then ([charOfCode code], none)
      else ([], some { needed := p.needed - 1, code := code })
    else
      let (chars, state) := start b
      (replacementChar :: chars, state)

/-- Decodes bytes from a state on. -/
def decodeFrom : Option Partial → List UInt8 → List Char
  | none, [] => []
  | some _, [] => [replacementChar]
  | state, b :: bytes =>
    let (chars, state) := step state b
    chars ++ decodeFrom state bytes

/-- Decodes bytes. -/
def decode (bytes : List UInt8) : List Char :=
  decodeFrom none bytes

end Utf8

namespace Utf16

/-- Whether a unit is the first half of a pair. -/
def isLead (unit : Nat) : Bool :=
  0xD800 ≤ unit && unit ≤ 0xDBFF

/-- Whether a unit is the second half of a pair. -/
def isTrail (unit : Nat) : Bool :=
  0xDC00 ≤ unit && unit ≤ 0xDFFF

/-- The characters of units, with the first half of a pair that has been read already. A single
byte is left over at the end if `odd`. -/
def characters (odd : Bool) : Option Nat → List Nat → List Char
  | lead, [] => if lead.isSome || odd then [replacementChar] else []
  | some lead, unit :: units =>
    if isTrail unit then
      charOfCode (0x10000 + (lead - 0xD800) * 0x400 + (unit - 0xDC00)) ::
        characters odd none units
    else if isLead unit then replacementChar :: characters odd (some unit) units
    else replacementChar :: charOfCode unit :: characters odd none units
  | none, unit :: units =>
    if isLead unit then characters odd (some unit) units
    else charOfCode unit :: characters odd none units

/-- The units that pairs of bytes make, and whether a single byte is left over. -/
def units (highFirst : Bool) : List UInt8 → List Nat × Bool
  | a :: b :: bytes =>
    let (rest, odd) := units highFirst bytes
    ((if highFirst then a.toNat * 256 + b.toNat else b.toNat * 256 + a.toNat) :: rest, odd)
  | [_] => ([], true)
  | [] => ([], false)

/-- Decodes bytes in the given order. -/
def decode (highFirst : Bool) (bytes : List UInt8) : List Char :=
  let (units, odd) := units highFirst bytes
  characters odd none units

end Utf16
end TextualData
