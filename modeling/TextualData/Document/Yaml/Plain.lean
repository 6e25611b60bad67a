import TextualData.Document.Yaml.Gap

/-!
# Plain scalars

`Yaml.plain` reads a scalar without quotes. It is made of words: a colon before a gap ends the
last one, and so do marks within brackets. Outside of brackets the lines that follow the first one
have to be indented.
-/

namespace TextualData
namespace Yaml

/-- The word of a plain scalar at the start of the text. Within brackets a colon may not stand
directly before a mark. -/
def word? (inBrackets : Bool) : List Char → Option (List Char)
  | [] => some []
  | c :: l =>
    if isGap c then some []
    else if inBrackets && c == ':' && l.head?.any (fun d => isFlowMark d || d == '?') then none
    else if c == ':' && endsWord l || inBrackets && isFlowMark c then some []
    else (word? inBrackets l).map (c :: ·)

/-- A plain scalar, last character first, as it is after a gap: its text, and whether a line break
follows it. -/
def plainBefore (gap read : List Char) : String × Bool :=
  (String.ofList read.reverse, gap.any isBreak)

/-- Reads on in a plain scalar whose lines begin in the given column or to the right of it; `read`
lists what was read, last character first, and `gap` is what has been passed since. -/
def plainFrom (inBrackets : Bool) (column : Int) (gap read : List Char) (p : Place) :
    Option ((String × Bool) × Place) :=
  match _h : p.rest with
  | [] => some (plainBefore gap read, p)
  | c :: l =>
    if p.atDocumentMark || c == '#' then some (plainBefore gap read, p)
    else
      match word? inBrackets (c :: l) with
      | none => none
      | some [] => some (plainBefore gap read, p)
      | some (d :: word) =>
        let read := word.reverse ++ d :: (folded gap).reverse ++ read
        let gap := (l.drop word.length).takeWhile isGap
        let count := word.length + 1 + gap.length
        if hasEarlyTab column none gap then none
        else if gap.isEmpty || !inBrackets && (p.after count).column < column then
          some (plainBefore gap read, p.after count)
        else plainFrom inBrackets column gap read (p.after count)
termination_by p.rest.length
decreasing_by exact Place.length_rest_after_lt _h (by omega)

/-- Reads a plain scalar that begins at the place, and whether it ends after a line break. -/
def plain (inBrackets : Bool) (column : Int) : Reader (String × Bool) := fun p =>
  plainFrom inBrackets column [] [] p

end Yaml
end TextualData
