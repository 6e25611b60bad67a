import TextualData.Grammar.Scan

/-!
# Blanks and comments

`Scan.blanks` passes over blanks and comments. A number sign opens a comment to the end of its
line if only blanks stand before it in the line; a comment between `<#--` and `-->` may stand
anywhere.
-/

namespace TextualData
namespace Blanks

/-- What is being passed over. -/
inductive Mode where
  | blank
  | lineComment
  /-- A comment up to its closing mark; where it began. -/
  | blockComment (start : Cursor)

/-- Whether a comment with a closing mark begins. -/
def opensComment : List Char → Bool
  | '<' :: '#' :: '-' :: '-' :: _ => true
  | _ => false

/-- Passes over blanks and comments and tells whether there was a line break outside of closed
comments. A comment that is not closed is to blame at its start, and is not passed. -/
def pass : Mode → (broken : Bool) → (before rest : List Char) →
    EStateM.Result ScanFault Cursor Bool
  | .blank, broken, before, [] => .ok broken ⟨before, []⟩
  | .blank, broken, before, c :: rest =>
    if Text.isBlank c then pass .blank (broken || Text.isLineBreak c) (c :: before) rest
    else if c == '#' && Text.isLineBlankBefore before then
      pass .lineComment broken (c :: before) rest
    else if opensComment (c :: rest) then
      pass (.blockComment ⟨before, c :: rest⟩) broken (c :: before) rest
    else .ok broken ⟨before, c :: rest⟩
  | .lineComment, broken, before, [] => .ok broken ⟨before, []⟩
  | .lineComment, broken, before, c :: rest =>
    if Text.isLineBreak c then pass .blank true (c :: before) rest
    else pass .lineComment broken (c :: before) rest
  | .blockComment start, _, _, [] => .error ⟨.unclosedComment, start.position⟩ start
  | .blockComment _, broken, before, '-' :: '-' :: '>' :: rest =>
    pass .blank broken ('>' :: '-' :: '-' :: before) rest
  | .blockComment start, broken, before, c :: rest =>
    pass (.blockComment start) broken (c :: before) rest

end Blanks

/-- Moves the cursor over blanks and comments, and tells whether they held a line break that
separates. -/
def Scan.blanks : Scan Bool := fun c =>
  Blanks.pass .blank false c.before c.rest

end TextualData
