import TextualData.Document.Yaml.BlockScalar
import TextualData.Document.Yaml.Plain
import TextualData.Document.Yaml.Quoted
import TextualData.Document.Yaml.Token

/-!
# Layout

`Token.ofChars?` gives the tokens of a text. Outside of brackets a block begins where an item or a
key stands further to the right than the block around it, and ends where a line begins further to
the left. Whether a node is a key shows only at the colon after it, so every node that may be one
is kept in mind, and its token comes before it once the colon is found.
-/

namespace TextualData
namespace Yaml

/-! ### Keys that are not yet known to be keys -/

/-- The beginning of a node that may turn out to be a key. -/
structure PossibleKey where
  place : Place
  /-- The number of tokens before the node. -/
  tokenCount : Nat
  /-- Whether nothing but a key can stand there, since the line begins in the column of its
  block. -/
  isRequired : Bool

/-- The greatest number of characters before the colon after a key. -/
def keyLength : Nat := 1024

/-- Whether a colon at the place would come too late for the key: it has to follow in the same line
and not too far away. -/
def PossibleKey.isLate (k : PossibleKey) (p : Place) : Bool :=
  k.place.line < p.line || k.place.index + keyLength < p.index

/-! ### Layouts -/

/-- The tokens of a document up to a place, and what is open there. -/
structure Layout where
  place : Place
  tokens : Array Token := #[]
  /-- The column of the innermost block, negative outside of all blocks. -/
  column : Int := -1
  /-- The columns of the blocks around it, innermost first. -/
  outerColumns : List Int := []
  /-- Whether a key may begin at the place. -/
  allowsKey : Bool := true
  /-- The node that may turn out to be a key within the innermost brackets. -/
  key : Option PossibleKey := none
  /-- Those within the brackets around them, innermost first. -/
  outerKeys : List (Option PossibleKey) := []

namespace Layout

/-- Whether the place is within brackets. -/
def inBrackets (l : Layout) : Bool :=
  !l.outerKeys.isEmpty

/-- Adds a token that takes up so many characters. -/
def push (l : Layout) (length : Nat) (t : Token) : Layout :=
  { l with tokens := l.tokens.push t, place := l.place.after length }

/-- Adds a token that is read from the place. -/
def read (l : Layout) (r : Reader Token) : Option Layout := do
  let (t, place) ← r.run l.place
  return { l with tokens := l.tokens.push t, place := place }

/-! ### Keys -/

/-- Gives up the node that may turn out to be a key, unless it has to be one. -/
def dropKey (l : Layout) : Option Layout :=
  if l.key.any PossibleKey.isRequired then none else some { l with key := none }

/-- Gives up all nodes whose colon would come too late, unless one has to be a key. -/
def dropLateKeys (l : Layout) : Option Layout :=
  let isLate (k : PossibleKey) := k.isLate l.place
  if (l.key :: l.outerKeys).any fun k => k.any fun k => isLate k && k.isRequired then none
  else
    let keep (k : Option PossibleKey) := k.filter fun k => !isLate k
    some { l with key := keep l.key, outerKeys := l.outerKeys.map keep }

/-- Keeps in mind that the node at the place may turn out to be a key, if a key is allowed. -/
def markKey (l : Layout) : Option Layout :=
  if l.allowsKey then
    l.dropKey.map fun l =>
      { l with key := some ⟨l.place, l.tokens.size, !l.inBrackets && l.column == l.place.column⟩ }
  else some l

/-! ### Blocks -/

/-- Begins a block in a column, if there is none yet; its token comes after so many tokens. -/
def openBlock (l : Layout) (column tokenCount : Nat) (t : Token) : Layout :=
  if !l.inBrackets && l.column < column then
    { l with
      tokens := l.tokens.insertIdxIfInBounds tokenCount t
      column := column
      outerColumns := l.column :: l.outerColumns }
  else l

/-- Begins a block at the place, where a key has to be allowed. -/
def openBlockHere (l : Layout) (t : Token) : Option Layout :=
  if l.inBrackets then some l
  else if l.allowsKey then some (l.openBlock l.place.column l.tokens.size t)
  else none

/-- Ends all blocks to the right of a column. -/
def closeBlocks (l : Layout) (column : Int) : Layout :=
  if l.inBrackets then l
  else
    let (inner, outer) := (l.column :: l.outerColumns).span fun n => column < n
    match outer with
    | [] => l
    | n :: outer =>
      { l with
        tokens := l.tokens ++ inner.toArray.map fun _ => .blockEnd
        column := n
        outerColumns := outer }

/-! ### The next token -/

/-- Passes over blanks, line breaks and comments, and a byte order mark that begins a line. A tab
is a blank within brackets and where no key may begin. After a line break a key may begin. -/
def skipGap (l : Layout) : Layout :=
  pass l.allowsKey false l.place.rest l.place
where
  /-- Passes over the characters at a place; the second flag tells of a comment. -/
  pass (allowsKey inComment : Bool) : List Char → Place → Layout
    | [], p => { l with place := p, allowsKey := allowsKey }
    | c :: rest, p =>
      if isBreak c then pass (allowsKey || !l.inBrackets) false rest p.next
      else if inComment || c == ' ' || c == '\t' && (l.inBrackets || !allowsKey) ||
          c == Text.byteOrderMark && p.column == 0 then
        pass allowsKey inComment rest p.next
      else if c = '#' then pass allowsKey true rest p.next
      else { l with place := p, allowsKey := allowsKey }

/-- Ends everything that a directive or a mark between documents ends. -/
def endDocument (l : Layout) : Option Layout :=
  (l.closeBlocks (-1)).dropKey.map fun l => { l with allowsKey := false }

/-- Takes the opening of brackets. -/
def openBrackets (l : Layout) (t : Token) : Option Layout := do
  let l ← l.markKey
  return { l.push 1 t with allowsKey := true, key := none, outerKeys := l.key :: l.outerKeys }

/-- Takes the closing of brackets. -/
def closeBrackets (l : Layout) (t : Token) : Option Layout := do
  let l := (← l.dropKey).push 1 t
  match l.outerKeys with
  | key :: outerKeys => return { l with allowsKey := false, key := key, outerKeys := outerKeys }
  | [] => return { l with allowsKey := false }

/-- Takes a comma between items. -/
def comma (l : Layout) : Option Layout :=
  l.dropKey.map fun l => { l.push 1 .comma with allowsKey := true }

/-- Takes the mark before an item of a block. -/
def item (l : Layout) : Option Layout := do
  let l ← (← l.openBlockHere .blockSequence).dropKey
  return { l.push 1 .item with allowsKey := true }

/-- Takes the mark before a key. -/
def keyMark (l : Layout) : Option Layout := do
  let l ← (← l.openBlockHere .blockMapping).dropKey
  return { l.push 1 .key with allowsKey := !l.inBrackets }

/-- Takes the colon between a key and its value. If a node before it may be the key, it is. -/
def valueMark (l : Layout) : Option Layout :=
  match l.key with
  | some k =>
    let l := { l with tokens := l.tokens.insertIdxIfInBounds k.tokenCount .key }
    let l := l.openBlock k.place.column k.tokenCount .blockMapping
    some { l.push 1 .value with key := none, allowsKey := false }
  | none => do
    let l ← l.openBlockHere .blockMapping
    return { l.push 1 .value with allowsKey := !l.inBrackets }

/-- Takes what begins a node and may begin a key, but after which none begins. -/
def keyPart (l : Layout) (r : Reader Token) : Option Layout := do
  let l ← l.markKey
  Layout.read { l with allowsKey := false } r

/-- Takes a plain scalar. -/
def plainScalar (l : Layout) : Option Layout := do
  let l ← l.markKey
  let ((text, isBroken), place) ← (plain l.inBrackets (l.column + 1)).run l.place
  return { l with
    tokens := l.tokens.push (.scalar true text), place := place, allowsKey := isBroken }

/-- Takes a block scalar. -/
def block (l : Layout) (isFolded : Bool) : Option Layout := do
  if l.inBrackets then none
  let l ← l.dropKey
  Layout.read { l with allowsKey := true } do
    modify Place.next
    return .scalar false (← blockScalar isFolded l.column)

/-- Takes the token that begins at the place with the given character. -/
def token? (l : Layout) (c : Char) (rest : List Char) : Option Layout :=
  if l.place.column = 0 ∧ c = '%' then do
    (← l.endDocument).read do
      modify Place.next
      directive
  else if l.place.atDocumentMark then
    l.endDocument.map (·.push 3 (if c = '-' then .documentStart else .documentEnd))
  else
    match c with
    | '[' => l.openBrackets .openBracket
    | '{' => l.openBrackets .openBrace
    | ']' => l.closeBrackets .closeBracket
    | '}' => l.closeBrackets .closeBrace
    | ',' => l.comma
    | '-' => if endsWord rest then l.item else l.plainScalar
    | '?' => if l.inBrackets || endsWord rest then l.keyMark else l.plainScalar
    | ':' => if l.inBrackets || endsWord rest then l.valueMark else l.plainScalar
    | '*' => l.keyPart do
      modify Place.next
      return .reference (← anchorName)
    | '&' => l.keyPart do
      modify Place.next
      return .anchor (← anchorName)
    | '!' => l.keyPart do return .tag (← writtenTag l.inBrackets)
    | '|' => l.block false
    | '>' => l.block true
    | c =>
      if c = Text.quotationMark ∨ c = Text.apostrophe then
        l.keyPart do return .scalar false (← quoted c)
      else if isGap c || c == '%' || c == '@' || c == '\x60' then none
      else l.plainScalar

/-- The tokens of what is left of a document, which has fewer characters than the bound. -/
def tokens? : (bound : Nat) → Layout → Option (List Token)
  | 0, _ => none
  | bound + 1, l => do
    let l ← l.skipGap.dropLateKeys
    match l.place.rest with
    | [] => return (← l.endDocument).tokens.toList
    | c :: rest => tokens? bound (← (l.closeBlocks l.place.column).token? c rest)

end Layout

/-- The tokens of a text, `none` if some part of it is no token or stands in a wrong place. -/
def Token.ofChars? (l : List Char) : Option (List Token) :=
  Layout.tokens? (l.length + 1) { place := { rest := l } }

end Yaml
end TextualData
