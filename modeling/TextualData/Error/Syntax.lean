import TextualData.Text.Quoted

/-!
# Malformed text

`Malformation` lists the ways in which a text can fail to be well-formed, with the message for
each.
-/

namespace TextualData

/-- Why a colon is refused between two items. -/
inductive ColonRefusal where
  | inList
  | valueGiven
deriving DecidableEq, Repr

/-- What a message says about a refused colon. -/
def ColonRefusal.message : ColonRefusal → String
  | inList => "This is a list, and not a hash."
  | valueGiven =>
    "Colon is for separating the key from the value, and the value was already given previously."

/-- What makes a text malformed. -/
inductive Malformation where
  | emptyText
  | extraText
  /-- The text ends where an expression should begin. -/
  | unexpectedEnd
  /-- No expression begins with the character at the place. -/
  | unexpectedCharacter
  | unclosedComment
  /-- A string literal is not closed by its quotation character. -/
  | unclosedString (quotation : Char)
  /-- A listing that is passed over is not closed. -/
  | unclosedListing (closing : Char)
  | unclosedList (closing : Char)
  | unclosedHash (closing : Char)
  | missingItem
  /-- A comma stands where an entry should. -/
  | missingEntry
  /-- Nothing follows the colon of an entry. -/
  | missingValue
  /-- A plus sign stands between two items. -/
  | union
  /-- A colon stands between two items that take none. -/
  | colon (refusal : ColonRefusal)
  /-- A semicolon stands between two items. -/
  | semicolon
  /-- An equals sign stands between two items. -/
  | equalsSign
  /-- A character directly after an item separates nothing. -/
  | strayCharacter (c : Char)
  /-- Two items stand in one line without a separator. -/
  | missingSeparator
  /-- The character after a backslash names no escape. -/
  | unknownEscape (c : Char)
  /-- A numeric escape has no digits, or its number is no character. -/
  | invalidNumericEscape
  /-- A backslash stands before blanks that hold no line break. -/
  | blankEscape
  /-- The recursion went deeper than the text is long, which does not occur. -/
  | exhausted
deriving DecidableEq, Repr

namespace Malformation

/-- The message about a plus sign between two items. -/
def unionMessage : String :=
  "The + operator (\"hash union\") is deprecated since FMPP 0.9.0, and starting from FMPP " ++
   "0.9.9 it is not allowed at all. Please use \"hash addition\" instead. For example, " ++
   "assuming that your configuration file is in .properties format (same as .cfg), instead " ++
   "of this:\n" ++
   "data=\x7ba:1, b:2\x7d + properties(data/style.properties) + birds:csv(data/birds.csv)\n" ++
   "your should write this:\n" ++
   "data=a:1, b:2, tdd(data/style.tdd), birds:csv(data/birds.csv)\n" ++
   "For more information on hash addition please see:\n" ++
   "http://fmpp.sourceforge.net/tdd.html#hashAddition"

/-- The message for a malformed text. -/
def message : Malformation → String
  | emptyText => "The text is empty."
  | extraText => "Extra character(s) after the expression."
  | unexpectedEnd => "Unexpected end of the text."
  | unexpectedCharacter => "Unexpected character."
  | unclosedComment => "Comment was not closed with \"-->\"."
  | unclosedString quotation =>
    "The closing " ++ Text.describe quotation ++ " of the string is missing."
  | unclosedListing closing =>
    "Reached the end of the text, but the closing " ++ Text.describe closing ++ " is missing."
  | unclosedList closing =>
    "Reached the end of the text, but the list was not closed with " ++ Text.describe closing ++ "."
  | unclosedHash closing =>
    "Reached the end of the text, but the map was not closed with " ++ Text.describe closing ++ "."
  | missingItem => "List item is missing before the comma."
  | missingEntry => "Key-value pair is missing before the comma."
  | missingValue => "The key must be followed by a value because colon was used."
  | union => unionMessage
  | colon refusal => "Colon (:) shouldn't be used here. " ++ refusal.message
  | semicolon =>
    "Semicolon (;) was unexpected here. If you want to separate items in a listing then use " ++
     "comma (,) instead."
  | equalsSign =>
    "Equals sign (=) was unexpected here. If you want to associate a key with a value then use " ++
     "colon (:) instead."
  | strayCharacter c => "Character " ++ Text.describe c ++ " shouldn't occur here."
  | missingSeparator =>
    "No separator was used before the item. Items in listings should be separated with comma " ++
     "(,) or line-break. Keys and values in hashes should be separated with colon (:)."
  | unknownEscape c =>
    String.ofList ("Invalid escape sequence \\".toList ++ c :: " in the string literal.".toList)
  | invalidNumericEscape => "Invalid hexadecimal UNICODE escape in the string literal."
  | blankEscape =>
    "Invalid usage of escape sequence \\white-space. This escape sequence can be used only " ++
     "before line-break."
  | exhausted => "The text nests too deeply."

end Malformation
end TextualData
