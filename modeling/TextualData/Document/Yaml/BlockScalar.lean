import TextualData.Document.Yaml.Place

/-!
# Block scalars

`Yaml.blockScalar` reads a scalar whose lines stand below its mark, all in one column. The lines
are kept as they are in a literal scalar; in a folded one the line feed between two lines that do
not begin with a blank is a space, or is left out before empty lines.
-/

namespace TextualData
namespace Yaml

/-- How line breaks at the end of a block scalar are treated. -/
inductive Chomping where
  | clip
  | strip
  | keep
deriving DecidableEq

/-- What the mark of a block scalar tells of it. -/
structure BlockHeader where
  chomping : Chomping
  /-- The number of columns by which it is indented, if it is given. -/
  indentation : Option Nat

/-- Takes a sign for the treatment of the end. -/
def chomping? : Reader (Option Chomping) := do
  if ← Reader.accept '+' then return some .keep
  else if ← Reader.accept '-' then return some .strip
  else return none

/-- Takes a digit, which may not be zero. -/
def indentation? : Reader (Option Nat) := do
  match ← Reader.peek? with
  | some c =>
    if !c.isDigit then return none
    if c = '0' then failure
    modify Place.next
    return some (c.toNat - '0'.toNat)
  | none => return none

/-- Reads what follows the mark of a block scalar in its line: a sign and a digit in either order,
both optional. -/
def blockHeader : Reader BlockHeader := do
  let first ← chomping?
  let indentation ← indentation?
  let sign ← if first.isNone && indentation.isSome then chomping? else pure first
  Reader.finishLine
  return ⟨sign.getD .clip, indentation⟩

/-- The greatest number of spaces before the end of an empty line at the start of the text, or
before the first line that is not empty. No tab may follow the spaces. -/
def firstIndentation? : (column : Nat) → List Char → Option Nat
  | column, [] => some column
  | column, c :: l =>
    if c = ' ' then firstIndentation? (column + 1) l
    else if c = '\t' then none
    else if isBreak c then (firstIndentation? 0 l).map (max column)
    else some column

/-- What has been read of a block scalar. -/
structure BlockText where
  /-- The text without the last line break, last character first. -/
  read : List Char := []
  lastBreak : Option Char := none
  /-- The line breaks of the empty lines after it, last one first. -/
  emptyBreaks : List Char := []
  /-- Whether the last line begins with a blank. -/
  beginsBlank : Bool := false

namespace BlockText

/-- The text with the next line and its line break. -/
def addLine (t : BlockText) (isFolded : Bool) (line : List Char) (lineBreak : Option Char) :
    BlockText :=
  let beginsBlank := line.head?.any isBlank
  let joint :=
    if isFolded && t.lastBreak == some '\n' && !t.beginsBlank && !beginsBlank then
      if t.emptyBreaks.isEmpty then [' '] else []
    else t.lastBreak.toList
  { read := line.reverse ++ t.emptyBreaks ++ joint ++ t.read, lastBreak := lineBreak,
    emptyBreaks := [], beginsBlank := beginsBlank }

/-- The text of the scalar as a whole. -/
def finish (t : BlockText) (c : Chomping) : String :=
  let last := if c = .strip then [] else t.lastBreak.toList
  let empty := if c = .keep then t.emptyBreaks else []
  String.ofList (empty ++ last ++ t.read).reverse

end BlockText

/-- Reads the lines of a block scalar that begin in the given column, from the start of a line.
The first line that begins further to the left and is not empty ends it, and may not begin with a
tab. -/
def blockLines (isFolded : Bool) (column : Nat) (t : BlockText) (p : Place) :
    Option (BlockText × Place) :=
  let spaces := ((p.rest.take column).takeWhile (· == ' ')).length
  match _h : p.rest.drop spaces with
  | [] => some (t, p.after spaces)
  | c :: l =>
    if isBreak c then
      blockLines isFolded column { t with emptyBreaks := c :: t.emptyBreaks } (p.after (spaces + 1))
    else if spaces < column then
      if c = '\t' then none else some (t, p.after spaces)
    else
      let line := c :: l.takeWhile fun d => !isBreak d
      match l.dropWhile fun d => !isBreak d with
      | [] => some (t.addLine isFolded line none, p.after (spaces + line.length))
      | b :: _ =>
        blockLines isFolded column (t.addLine isFolded line (some b))
          (p.after (spaces + line.length + 1))
termination_by p.rest.length
decreasing_by
  all_goals
    rw [Place.rest_after, List.length_drop]
    have := congrArg List.length _h
    rw [List.length_drop, List.length_cons] at this
    omega

/-- Reads a block scalar after its mark, given the column of the block in which it stands. -/
def blockScalar (isFolded : Bool) (outer : Int) : Reader String := do
  let header ← blockHeader
  let p ← get
  let column ← match header.indentation with
    | some n => pure ((max outer 0).toNat + n)
    | none => do
      let some first := firstIndentation? 0 p.rest | failure
      pure (max first (max (outer + 1) 1).toNat)
  let some (t, p) := blockLines isFolded column {} p | failure
  set p
  return t.finish header.chomping

end Yaml
end TextualData
