import TextualData.Grammar.Scan
import TextualData.Value.Basic

/-!
# Unquoted tokens

An unquoted token is a run of token characters, with an optional plus sign in front; outside of
keys it may hold colons. `Token.classify` says what a token means: a truth value, an integer, a
decimal or else a string.
-/

namespace TextualData
namespace Token

/-- The characters that end a token, blanks apart. The plus sign and the colon end it unless they
stand where a token may have them. -/
def delimiters : List Char :=
  [Text.quotationMark, Text.apostrophe, '(', ')', '+', ',', ':', ';', '<', '=', '>', '[', ']',
   '{', '}']

/-- Whether a token may hold the character anywhere. -/
def isTokenChar (c : Char) : Bool :=
  !Text.isBlank c && !delimiters.contains c

/-- Whether a token, as a key or elsewhere, goes on with the character. -/
def continues (inKey : Bool) (c : Char) : Bool :=
  isTokenChar c || c == ':' && !inKey

/-- The token at the start of a text, and what follows it. -/
def split (inKey : Bool) : List Char → List Char × List Char
  | '+' :: l => ('+' :: l.takeWhile (continues inKey), l.dropWhile (continues inKey))
  | l => (l.takeWhile (continues inKey), l.dropWhile (continues inKey))

theorem split_append (inKey : Bool) (l : List Char) :
    (split inKey l).1 ++ (split inKey l).2 = l := by
  unfold split
  split <;> simp [List.takeWhile_append_dropWhile]

/-- Whether a token begins like a number. -/
def startsNumeral : List Char → Bool
  | c :: _ => c.isDigit || c == '+' || c == '-'
  | [] => false

/-- Whether a token has a digit, and only characters that occur in numerals. -/
def isNumeralLike (l : List Char) : Bool :=
  l.any Char.isDigit &&
    l.all fun c => c.isDigit || c == '.' || c == 'e' || c == 'E' || c == '+' || c == '-'

/-- The token without one plus sign in front. -/
def unsigned : List Char → List Char
  | '+' :: l => l
  | l => l

/-- The number that a token denotes, if it denotes one: an integer if it can be one, and a decimal
otherwise. -/
def number? (l : List Char) : Option Value :=
  if startsNumeral l then
    match Numeral.int64? (unsigned l) with
    | some n => some (.integer n)
    | none =>
      if isNumeralLike (unsigned l) then (Decimal.ofChars? (unsigned l)).map .decimal else none
  else none

/-- The meaning of a token: a truth value, a number, or the string itself. -/
def classify (l : List Char) : Value :=
  if l = ['t', 'r', 'u', 'e'] then .boolean true
  else if l = ['f', 'a', 'l', 's', 'e'] then .boolean false
  else (number? l).getD (.string (String.ofList l))

end Token

/-- Moves the cursor over the token that begins at it, which may be empty, and gives the token. -/
def Scan.token (inKey : Bool) : Scan (List Char) := fun c =>
  let (token, rest) := Token.split inKey c.rest
  .ok token (c.pass token rest)

end TextualData
