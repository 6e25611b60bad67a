/-!
# Tab expansion

`Text.expandTabs` replaces each tab by spaces up to the next column that is a multiple of the tab
width. Columns are counted in characters.
-/

namespace TextualData
namespace Text

/-- Replaces tabs by spaces in text whose first character stands at column `column`. -/
def expandTabs (width : Nat) : (column : Nat) → List Char → List Char
  | _, [] => []
  | column, c :: l =>
    if c = '\t' then
      let spaces := width - column % width
      List.replicate spaces ' ' ++ expandTabs width (column + spaces) l
    else c :: expandTabs width (column + 1) l

end Text
end TextualData
