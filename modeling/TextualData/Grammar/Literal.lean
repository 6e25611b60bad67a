import TextualData.Grammar.Scan

/-!
# String literals

A quoted literal stands between two quotation marks or two apostrophes and may hold escapes:
characters by name, by hexadecimal number, and line breaks to be left out. A raw literal has the
letter `r` in front and no escapes.
-/

namespace TextualData
namespace Literal

/-- Whether the character opens and closes quoted literals. -/
def isQuotation (c : Char) : Bool :=
  c == Text.quotationMark || c == Text.apostrophe

/-- The character that a letter after a backslash names. -/
def named? (c : Char) : Option Char :=
  if c = Text.quotationMark ∨ c = Text.apostrophe ∨ c = Text.backslash ∨ c = '{' then some c
  else if c = 'n' then some '\n'
  else if c = 'r' then some '\r'
  else if c = 't' then some '\t'
  else if c = 'f' then some Text.formFeed
  else if c = 'b' then some Text.backspace
  else if c = 'g' then some '>'
  else if c = 'l' then some '<'
  else if c = 'a' then some '&'
  else none

/-- The first hexadecimal digits of a text, four at most, as values. -/
def hexRun (l : List Char) : List Nat :=
  (l.take 4).takeWhile (fun c => (Text.hexValue? c).isSome) |>.filterMap Text.hexValue?

/-- The number that hexadecimal digits denote. -/
def hexNumber (digits : List Nat) : Nat :=
  digits.foldl (fun n d => 16 * n + d) 0

/-- The number of blanks from the start of a text up to its second line break, and whether there
was a first one. A carriage return with its line feed is one line break. -/
def continuation : (broken : Bool) → List Char → Nat × Bool
  | broken, [] => (0, broken)
  | broken, '\r' :: '\n' :: l =>
    if broken then (0, true)
    else
      let (n, found) := continuation true l
      (n + 2, found)
  | broken, c :: l =>
    if !Text.isBlank c || Text.isLineBreak c && broken then (0, broken)
    else
      let (n, found) := continuation (broken || Text.isLineBreak c) l
      (n + 1, found)

/-- What an escape means. -/
inductive Escape where
  /-- The escape stands for the given text and takes up so many characters after the
  backslash. -/
  | text (l : List Char) (length : Nat)
  /-- The escape is malformed, and the scan stops so many characters after its start. -/
  | malformed (cause : Malformation) (passed : Nat)
deriving DecidableEq, Repr

/-- The escape that a backslash opens, given the characters after the backslash. -/
def escape (c : Char) (l : List Char) : Escape :=
  match named? c with
  | some u => .text [u] 1
  | none =>
    if c = 'x' ∨ c = 'u' then
      let digits := hexRun l
      match digits, Text.scalar? (hexNumber digits) with
      | _ :: _, some u => .text [u] (digits.length + 1)
      | _, _ => .malformed .invalidNumericEscape (digits.length + 2)
    else if Text.isBlank c then
      match continuation false (c :: l) with
      | (n, true) => .text [] n
      | (_, false) => .malformed .blankEscape 0
    else .malformed (.unknownEscape c) 0

/-- Reads a quoted literal from within, up to and with its closing quotation character. The
characters read so far are in `read`, last first. -/
def body (quotation : Char) (start : Nat) (before rest read : List Char) :
    EStateM.Result ScanFault Cursor (List Char) :=
  match rest with
  | [] => .error ⟨.unclosedString quotation, start⟩ ⟨before, []⟩
  | c :: l =>
    if c = quotation then .ok read.reverse ⟨c :: before, l⟩
    else if c = Text.backslash then
      match l with
      | [] => .error ⟨.unclosedString quotation, start⟩ ⟨before, [c]⟩
      | e :: m =>
        match escape e m with
        | .malformed cause passed =>
          let here : Cursor := ⟨before, c :: e :: m⟩
          .error ⟨cause, here.position⟩
            (here.pass ((c :: e :: m).take passed) ((c :: e :: m).drop passed))
        | .text t length =>
          body quotation start (((e :: m).take length).reverse ++ c :: before)
            ((e :: m).drop length) (t.reverse ++ read)
    else body quotation start (c :: before) l (c :: read)
termination_by rest.length
decreasing_by
  · simp only [List.length_drop, List.length_cons]; omega
  · simp

/-- The text between the start of a raw literal and its closing character, and what follows. -/
def rawBody? (quotation : Char) (l : List Char) : Option (List Char × List Char) :=
  match l.dropWhile (· != quotation) with
  | [] => none
  | _ :: rest => some (l.takeWhile (· != quotation), rest)

/-- The quotation character of the raw literal that begins at the start of the text. -/
def rawQuotation? : List Char → Option Char
  | 'r' :: c :: _ => if isQuotation c then some c else none
  | _ => none

end Literal

namespace Scan

/-- Reads the quoted literal that begins at the cursor. -/
def quoted (quotation : Char) : Scan (List Char) := fun c =>
  Literal.body quotation c.position c.next.before c.next.rest []

/-- Reads the raw literal that begins at the cursor. -/
def raw (quotation : Char) : Scan (List Char) := fun c =>
  match Literal.rawBody? quotation c.next.next.rest with
  | some (l, rest) => .ok l (c.next.next.pass (l ++ [quotation]) rest)
  | none => .error ⟨.unclosedString quotation, c.position⟩ c

end Scan
end TextualData
