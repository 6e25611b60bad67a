/-!
# Encodings of one byte

The upper halves of the encodings in which each byte is a character. The lower half is ASCII.
-/

namespace TextualData
namespace Charset

/-- The code points of the bytes from 0x80 to 0x9F in windows-1252. -/
def windows1252Codes : List Nat :=
  [0x20AC, 0x0081, 0x201A, 0x0192, 0x201E, 0x2026, 0x2020, 0x2021,
   0x02C6, 0x2030, 0x0160, 0x2039, 0x0152, 0x008D, 0x017D, 0x008F,
   0x0090, 0x2018, 0x2019, 0x201C, 0x201D, 0x2022, 0x2013, 0x2014,
   0x02DC, 0x2122, 0x0161, 0x203A, 0x0153, 0x009D, 0x017E, 0x0178]

/-- The code points of the bytes from 0xA0 to 0xFF in ISO-8859-2. -/
def latin2Codes : List Nat :=
  [0x00A0, 0x0104, 0x02D8, 0x0141, 0x00A4, 0x013D, 0x015A, 0x00A7,
   0x00A8, 0x0160, 0x015E, 0x0164, 0x0179, 0x00AD, 0x017D, 0x017B,
   0x00B0, 0x0105, 0x02DB, 0x0142, 0x00B4, 0x013E, 0x015B, 0x02C7,
   0x00B8, 0x0161, 0x015F, 0x0165, 0x017A, 0x02DD, 0x017E, 0x017C,
   0x0154, 0x00C1, 0x00C2, 0x0102, 0x00C4, 0x0139, 0x0106, 0x00C7,
   0x010C, 0x00C9, 0x0118, 0x00CB, 0x011A, 0x00CD, 0x00CE, 0x010E,
   0x0110, 0x0143, 0x0147, 0x00D3, 0x00D4, 0x0150, 0x00D6, 0x00D7,
   0x0158, 0x016E, 0x00DA, 0x0170, 0x00DC, 0x00DD, 0x0162, 0x00DF,
   0x0155, 0x00E1, 0x00E2, 0x0103, 0x00E4, 0x013A, 0x0107, 0x00E7,
   0x010D, 0x00E9, 0x0119, 0x00EB, 0x011B, 0x00ED, 0x00EE, 0x010F,
   0x0111, 0x0144, 0x0148, 0x00F3, 0x00F4, 0x0151, 0x00F6, 0x00F7,
   0x0159, 0x016F, 0x00FA, 0x0171, 0x00FC, 0x00FD, 0x0163, 0x02D9]

/-- The bytes of ISO-8859-15 that differ from ISO-8859-1, with their code points. -/
def latin9Changes : List (Nat × Nat) :=
  [(0xA4, 0x20AC), (0xA6, 0x0160), (0xA8, 0x0161), (0xB4, 0x017D), (0xB8, 0x017E),
   (0xBC, 0x0152), (0xBD, 0x0153), (0xBE, 0x0178)]

/-- The character of the byte in ISO-8859-1: the one with the same number. -/
def latin1Char (b : UInt8) : Char :=
  Char.ofNat b.toNat

/-- The character of the byte in windows-1252. -/
def windows1252Char (b : UInt8) : Char :=
  if b < 0x80 then latin1Char b
  else Char.ofNat (windows1252Codes.getD (b.toNat - 0x80) b.toNat)

/-- The character of the byte in ISO-8859-2. -/
def latin2Char (b : UInt8) : Char :=
  if b < 0xA0 then latin1Char b else Char.ofNat (latin2Codes.getD (b.toNat - 0xA0) b.toNat)

/-- The character of the byte in ISO-8859-15. -/
def latin9Char (b : UInt8) : Char :=
  Char.ofNat ((latin9Changes.lookup b.toNat).getD b.toNat)

/-- The character of the byte in the user-defined encoding. -/
def userDefinedChar (b : UInt8) : Char :=
  if b < 0x80 then latin1Char b else Char.ofNat (0xF780 + (b.toNat - 0x80))

end Charset
end TextualData
