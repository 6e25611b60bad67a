import TextualData.Text.CaseTables
import TextualData.Text.Ranges

/-!
# Lower case

`Text.lowerCase` is the full Unicode mapping to lower case. It depends on the context in one place:
the capital sigma becomes the final form at the end of a word.
-/

namespace TextualData
namespace Text

/-- Whether the character has the property `Cased`. -/
def isCased (c : Char) : Bool :=
  inRanges casedRanges c

/-- Whether the character has the property `Case_Ignorable`. -/
def isCaseIgnorable (c : Char) : Bool :=
  inRanges caseIgnorableRanges c

/-- The lower-case form of a character by itself. -/
def lowerChar (c : Char) : List Char :=
  if c.toNat < 0x80 then [c.toLower]
  else if c = '\u0130' then ['i', '\u0307']
  else
    match lowerRanges.find? fun (first, last, step, _) =>
        first ≤ c.toNat && c.toNat ≤ last && (c.toNat - first) % step == 0 with
    | some (_, _, _, distance) => [Char.ofNat (c.toNat + distance).toNat]
    | none => [c]

/-- Whether the first character that is not ignored has a case. -/
def meetsCased (l : List Char) : Bool :=
  match l.dropWhile isCaseIgnorable with
  | c :: _ => isCased c
  | [] => false

/-- The lower-case form of a capital sigma between two texts, the first nearest character first:
final after a letter that no letter follows. -/
def lowerSigma (before after : List Char) : Char :=
  if meetsCased before && !meetsCased after then '\u03C2' else '\u03C3'

/-- The lower-case form of characters, given those before them, nearest first. -/
def lowerFrom (before : List Char) : List Char → List Char
  | [] => []
  | c :: l =>
    (if c = '\u03A3' then [lowerSigma before l] else lowerChar c) ++ lowerFrom (c :: before) l

/-- The text in lower case. -/
def lowerCase (l : List Char) : List Char :=
  lowerFrom [] l

end Text
end TextualData
