import TextualData.Text.Ranges

/-!
# Blank characters and trimming

`Text.isWhiteSpace` is the Unicode property `White_Space`. The notation counts the byte order
mark U+FEFF as blank too (`Text.isBlank`). A line ends at a line feed or a carriage return, and
`Text.trim` removes characters of a class from both ends of a list of characters.
-/

namespace TextualData
namespace Text

/-- The ranges of code points with the Unicode property `White_Space`, in ascending order. -/
def whiteSpaceRanges : List (Nat × Nat) :=
  [(0x09, 0x0D), (0x20, 0x20), (0x85, 0x85), (0xA0, 0xA0), (0x1680, 0x1680), (0x2000, 0x200A),
   (0x2028, 0x2029), (0x202F, 0x202F), (0x205F, 0x205F), (0x3000, 0x3000)]

/-- Whether the character has the Unicode property `White_Space`. -/
def isWhiteSpace (c : Char) : Bool :=
  inRanges whiteSpaceRanges c

/-- The byte order mark, U+FEFF. -/
def byteOrderMark : Char := '\uFEFF'

/-- Whether the notation treats the character as blank: white space or the byte order mark. -/
def isBlank (c : Char) : Bool :=
  isWhiteSpace c || c == byteOrderMark

/-- Whether the character ends a line, alone or as half of a pair. -/
def isLineBreak (c : Char) : Bool :=
  c == '\n' || c == '\r'

/-- The characters without those of class `p` at either end. -/
def trim (p : Char → Bool) (l : List Char) : List Char :=
  ((l.dropWhile p).reverse.dropWhile p).reverse

/-- The text without characters of class `p` at either end. -/
def trimmed (p : Char → Bool) (s : String) : String :=
  String.ofList (trim p s.toList)

/-- Whether nothing but blanks stands in the current line, where `before` lists what precedes a
place, nearest character first. -/
def isLineBlankBefore (before : List Char) : Bool :=
  (before.takeWhile fun c => !isLineBreak c).all isBlank

theorem isBlank_of_isLineBreak {c : Char} (h : isLineBreak c) : isBlank c := by
  simp only [isLineBreak, Bool.or_eq_true, beq_iff_eq] at h
  rcases h with rfl | rfl <;> decide

end Text
end TextualData
