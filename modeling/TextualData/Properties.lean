import TextualData.Error.Loading
import TextualData.Text.Lines

/-!
# Properties files

A properties file lists keys with their values, one entry on a line. A line that begins with a
number sign or an exclamation mark is a comment, a line that ends in a backslash goes on in the
next one, and a backslash takes the meaning from a separator or begins an escape.
`Properties.parse` reads such a text into a hash of strings.
-/

namespace TextualData
namespace Properties

/-- Whether the character is a blank within a line. -/
def isSpace (c : Char) : Bool :=
  c == ' ' || c == '\t' || c == Text.formFeed

/-- Whether the line, from its first character that is no blank, is a comment. -/
def isComment : List Char → Bool
  | c :: _ => c == '#' || c == '!'
  | [] => false

/-- Whether the line ends in an odd number of backslashes, and so goes on in the next one. -/
def continues (line : List Char) : Bool :=
  (line.reverse.takeWhile (· == Text.backslash)).length % 2 == 1

/-- The logical lines of a file: entries without comments, empty lines and blanks in front, each
joined with the lines it goes on in. The first argument is a line that goes on, without its last
backslash. -/
def logicalLines : Option (List Char) → List (List Char) → List (List Char)
  | none, [] => []
  | some line, [] => [line]
  | none, line :: lines =>
    let line := line.dropWhile isSpace
    if line.isEmpty || isComment line then logicalLines none lines
    else if continues line then logicalLines (some line.dropLast) lines
    else line :: logicalLines none lines
  | some start, line :: lines =>
    let line := start ++ line.dropWhile isSpace
    if continues line then logicalLines (some line.dropLast) lines
    else line :: logicalLines none lines

/-- Whether the character separates a key from its value. -/
def separates (c : Char) : Bool :=
  c == '=' || c == ':' || isSpace c

/-- The key at the start of a logical line, and what follows it from the separator on. A backslash
takes the next character into the key. -/
def splitKey : List Char → List Char × List Char
  | [] => ([], [])
  | '\\' :: c :: l =>
    let (key, rest) := splitKey l
    ('\\' :: c :: key, rest)
  | c :: l =>
    if separates c then ([], c :: l)
    else
      let (key, rest) := splitKey l
      (c :: key, rest)

/-- The value after a key: what follows the separator and the blanks around it. -/
def valueAfter : List Char → List Char
  | [] => []
  | c :: l =>
    let l := l.dropWhile isSpace
    if isSpace c then
      match l with
      | d :: m => if d == '=' || d == ':' then m.dropWhile isSpace else d :: m
      | [] => []
    else l

/-- The key and the value of a logical line, both with their escapes. -/
def splitEntry (line : List Char) : List Char × List Char :=
  let (key, rest) := splitKey line
  (key, valueAfter rest)

/-- The number that hexadecimal digits denote, if there are only such. -/
def hexNumeral? (l : List Char) : Option Nat :=
  (l.mapM Text.hexValue?).map fun digits => digits.foldl (fun n d => 16 * n + d) 0

/-- The character that the four characters of a numeric escape denote. A plus sign in front is
allowed. -/
def escapedChar? (l : List Char) : Option Char :=
  match l with
  | '+' :: l => hexNumeral? l >>= Text.scalar?
  | l => hexNumeral? l >>= Text.scalar?

/-- The character that a letter after a backslash stands for: some control characters by name, and
every other character itself. -/
def escapedLetter (c : Char) : Char :=
  if c = 't' then '\t'
  else if c = 'n' then '\n'
  else if c = 'r' then '\r'
  else if c = 'f' then Text.formFeed
  else c

/-- Replaces the escapes of a key or value by what they stand for. -/
def unescape : List Char → Except LoadFault (List Char)
  | [] => .ok []
  | ['\\'] => .ok []
  | '\\' :: 'u' :: a :: b :: c :: d :: l => do
    match escapedChar? [a, b, c, d] with
    | some e => return e :: (← unescape l)
    | none => throw (.malformedEscape (String.ofList [a, b, c, d]))
  | '\\' :: 'u' :: l => .error (.malformedEscape (String.ofList l))
  | '\\' :: c :: l => do return escapedLetter c :: (← unescape l)
  | c :: l => do return c :: (← unescape l)

/-- Adds the entry of a logical line to a hash. -/
def addLine (h : Hash) (line : List Char) : Except LoadFault Hash := do
  let (key, value) := splitEntry line
  let key ← unescape key
  let value ← unescape value
  return h.insert (String.ofList key) (.string (String.ofList value))

/-- The entries of a properties file in the order of the file. A key that is repeated keeps its
place and takes its last value. -/
def parse (text : String) : Except LoadFault Hash :=
  (logicalLines none (Text.lines text.toList)).foldlM addLine []

end Properties
end TextualData
