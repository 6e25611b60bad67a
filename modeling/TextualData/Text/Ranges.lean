/-!
# Ranges of characters

A property of characters that no rule gives is a table of ranges of code points, each with its
first and its last one.
-/

namespace TextualData
namespace Text

/-- Whether a code point lies in one of the ranges. -/
def inRanges (ranges : List (Nat × Nat)) (c : Char) : Bool :=
  ranges.any fun (first, last) => first ≤ c.toNat && c.toNat ≤ last

end Text
end TextualData
