import TextualData.Text.HiddenTable
import TextualData.Text.Quoted
import TextualData.Text.Ranges

/-!
# Text quoted for inspection

`Text.quoteExactly` shows a text between quotation marks so that every character of it can be
told: characters that leave no mark of their own stand as escapes, by name or by number in braces.
-/

namespace TextualData
namespace Text

/-- A natural number in hexadecimal digits without leading zeros. -/
def hexDigits (n : Nat) : List Char :=
  Nat.toDigits 16 n

/-- Whether the character leaves no mark of its own and is shown by its number. -/
def isHidden (c : Char) : Bool :=
  inRanges hiddenRanges c

/-- One character of a text that is shown. -/
def showChar (c : Char) : List Char :=
  if c = backslash ∨ c = quotationMark then [backslash, c]
  else if c = '\n' then [backslash, 'n']
  else if c = '\r' then [backslash, 'r']
  else if c = '\t' then [backslash, 't']
  else if c.toNat = 0 then [backslash, '0']
  else if isHidden c then backslash :: 'u' :: '{' :: (hexDigits c.toNat ++ ['}'])
  else [c]

/-- The text between quotation marks, with its special characters as escapes. -/
def quoteExactly (s : String) : String :=
  String.ofList (quotationMark :: (s.toList.flatMap showChar ++ [quotationMark]))

end Text
end TextualData
