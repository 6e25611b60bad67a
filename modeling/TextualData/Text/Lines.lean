import TextualData.Text.Blank

/-!
# Lines

A line ends at a line feed, a carriage return, or the pair of both. `Text.lines` cuts a text into
its lines, and `Text.normalizeLineBreaks` writes each line break as a line feed.
-/

namespace TextualData
namespace Text

/-- The lines of a text without their line breaks. What follows the last line break is a line only
if it is not empty. -/
def lines (l : List Char) : List (List Char) :=
  go [] l
where
  /-- Collects the current line, last character first. -/
  go (line : List Char) : List Char → List (List Char)
    | [] => if line.isEmpty then [] else [line.reverse]
    | '\r' :: '\n' :: l => line.reverse :: go [] l
    | c :: l => if isLineBreak c then line.reverse :: go [] l else go (c :: line) l

/-- The text with a line feed for each line break. -/
def normalizeLineBreaks : List Char → List Char
  | [] => []
  | '\r' :: '\n' :: l => '\n' :: normalizeLineBreaks l
  | c :: l => (if c = '\r' then '\n' else c) :: normalizeLineBreaks l

end Text
end TextualData
