import TextualData.Document.Yaml.Place

/-!
# Gaps between words

A gap is a run of blanks and line breaks. Within a scalar that goes on after it, a gap without a
line break stands for itself, and one with line breaks is folded.
-/

namespace TextualData
namespace Yaml

/-- What a gap within a scalar stands for. Blanks beside a line break count for nothing. A line
feed alone stands for a space; before further line breaks it is left out, unlike the separators. -/
def folded (gap : List Char) : List Char :=
  match gap.filter isBreak with
  | [] => gap
  | b :: bs =>
    if b = '\n' then if bs.isEmpty then [' '] else bs
    else b :: bs

/-- Whether a tab stands in the first columns of a line that begins within a gap; `column` is the
column in such a line. -/
def hasEarlyTab (columns : Int) : (column : Option Nat) → (gap : List Char) → Bool
  | _, [] => false
  | column, c :: gap =>
    if isBreak c then hasEarlyTab columns (some 0) gap
    else c == '\t' && column.any (fun n => n < columns) ||
      hasEarlyTab columns (column.map (· + 1)) gap

end Yaml
end TextualData
