import TextualData.Grammar.Blanks

/-!
# Separators

Between two items stands a comma, a colon or a line break, with any blanks and comments around it;
after the last item stands the closing bracket of the listing, or the end of the text if the
listing has no brackets.
-/

namespace TextualData

/-- What stands between two items. -/
inductive Separator where
  /-- A comma, or a line break that counts as one. -/
  | comma
  | colon
  | closing
  | unfinished
deriving DecidableEq, Repr

/-- The separator at a character that is none of the marks with a meaning or a message of their
own. A line break before it separates. -/
def Scan.separatorBefore (start : Cursor) (broken : Bool) (c : Char) : Scan Separator := do
  if broken then return .comma
  else if (← get).position = start.position then refuse (.strayCharacter c)
  else refuse .missingSeparator

/-- Moves the cursor over a separator and the blanks around it, to the next item or the closing
bracket. A colon is refused if a refusal is given. -/
def Scan.separator (closing : Option Char) (refusal : Option ColonRefusal) : Scan Separator := do
  let start ← get
  let broken ← blanks
  match ← peek?, refusal with
  | none, _ => return if closing.isNone then .closing else .unfinished
  | some '+', _ => refuse .union
  | some ':', some refusal => refuse (.colon refusal)
  | some ':', none =>
    next
    let _ ← blanks
    return .colon
  | some ',', _ =>
    next
    let _ ← blanks
    return .comma
  | some c, _ =>
    if closing = some c then return .closing
    else if c = ';' then refuse .semicolon
    else if c = '=' then refuse .equalsSign
    else separatorBefore start broken c

end TextualData
