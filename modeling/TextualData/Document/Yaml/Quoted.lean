import TextualData.Document.Yaml.Gap
import TextualData.Text.Quoted

/-!
# Quoted scalars

`Yaml.quoted` reads a scalar within apostrophes, in which an apostrophe is doubled, or within
quotation marks, in which a backslash opens an escape. Gaps are folded, and an escaped line break
is left out with the blanks around it.
-/

namespace TextualData
namespace Yaml

/-- The characters that single letters stand for in an escape. -/
def escapes : List (Char × Char) :=
  [('0', '\x00'), ('a', '\x07'), ('b', '\x08'), ('t', '\t'), ('\t', '\t'), ('n', '\n'),
   ('v', '\x0b'), ('f', '\x0c'), ('r', '\r'), ('e', '\x1b'), (' ', ' '), ('\x22', '\x22'),
   ('/', '/'), ('\\', '\\'), ('N', '\u0085'), ('_', '\u00A0'), ('L', '\u2028'), ('P', '\u2029')]

/-- The letters that open an escape by number, each with the number of digits. -/
def numericEscapes : List (Char × Nat) :=
  [('x', 2), ('u', 4), ('U', 8)]

/-- The value of hexadecimal digits. -/
def hexNumber? (l : List Char) : Option Nat :=
  (l.mapM Text.hexValue?).map fun digits => digits.foldl (fun n d => 16 * n + d) 0

/-- What the escape stands for that follows a backslash, and the number of its characters. -/
def escape? : List Char → Option (List Char × Nat)
  | [] => none
  | c :: l =>
    if isBreak c then
      let gap := l.takeWhile isGap
      some (gap.filter isBreak, gap.length + 1)
    else
      match numericEscapes.lookup c with
      | some count =>
        let digits := l.take count
        if digits.length < count then none
        else ((hexNumber? digits).bind Text.scalar?).map fun d => ([d], count + 1)
      | none => (escapes.lookup c).map fun d => ([d], 1)

/-- Reads on within a quoted scalar up to its closing mark; `read` lists what was read, last
character first. No mark between documents may begin a line. -/
def quotedFrom (mark : Char) (read : List Char) (p : Place) : Option (String × Place) :=
  match _h : p.rest with
  | [] => none
  | c :: l =>
    if p.atDocumentMark then none
    else if isGap c then
      let gap := c :: l.takeWhile isGap
      quotedFrom mark ((folded gap).reverse ++ read) (p.after gap.length)
    else if c = mark then
      if mark = Text.apostrophe ∧ l.head? = some mark then
        quotedFrom mark (mark :: read) (p.after 2)
      else some (String.ofList read.reverse, p.next)
    else if c = Text.backslash ∧ mark = Text.quotationMark then
      match escape? l with
      | some (text, count) => quotedFrom mark (text.reverse ++ read) (p.after (count + 1))
      | none => none
    else quotedFrom mark (c :: read) (p.after 1)
termination_by p.rest.length
decreasing_by all_goals exact Place.length_rest_after_lt _h (by simp)

/-- Reads a quoted scalar that begins at the place. -/
def quoted (mark : Char) : Reader String := fun p =>
  quotedFrom mark [] p.next

end Yaml
end TextualData
