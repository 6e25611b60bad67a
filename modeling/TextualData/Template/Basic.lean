import TextualData.Template.Token

/-!
# Templates

A `Template` is text with expressions to print, with parts that depend on a condition and with
parts that are repeated. `Template.parse?` reads one.
-/

namespace TextualData
namespace Template

/-- An expression in a tag. -/
inductive Expr where
  | name (s : String)
  | flag (b : Bool)
  | field (e : Expr) (key : String)
  /-- An item of a list, counted from its end if the index is negative. -/
  | item (e : Expr) (index : Int)
  /-- The keys of a record with their values. -/
  | entries (e : Expr)
  | negation (e : Expr)
deriving DecidableEq, Repr

/-- A part of a template. -/
inductive Node where
  | text (l : List Char)
  | output (e : Expr)
  | branch (condition : Expr) (yes no : List Node)
  /-- Parts that are repeated for each item of a list, with names for it. -/
  | loop (names : List String) (items : Expr) (body : List Node)

/-! ### Expressions -/

/-- The name of the function that lists the entries of a record. -/
def entriesFilter : String := "items"

/-- Reads what follows an expression up to the end of the tag. -/
def accesses? (e : Expr) : List Token → Option Expr
  | [] => some e
  | .mark '.' :: .word key :: ts => accesses? (.field e key) ts
  | .mark '[' :: .quoted key :: .mark ']' :: ts => accesses? (.field e key) ts
  | .mark '[' :: .number n :: .mark ']' :: ts => accesses? (.item e n) ts
  | .mark '[' :: .mark '-' :: .number n :: .mark ']' :: ts => accesses? (.item e (-(n : Int))) ts
  | .mark '|' :: .word filter :: ts =>
    if filter = entriesFilter then accesses? (.entries e) ts else none
  | _ => none

/-- The expression that a word stands for. -/
def wordExpr (s : String) : Expr :=
  if s = "true" ∨ s = "True" then .flag true
  else if s = "false" ∨ s = "False" then .flag false
  else .name s

/-- Reads an expression up to the end of the tag. -/
def expr? : List Token → Option Expr
  | .word s :: ts =>
    if s = "not" then (expr? ts).map .negation else accesses? (wordExpr s) ts
  | _ => none

/-! ### Statements -/

/-- The statements. -/
inductive Statement where
  | condition (e : Expr)
  /-- The other side of a condition begins. -/
  | otherwise
  | endCondition
  | loop (names : List String) (items : Expr)
  | endLoop

/-- The names that cannot be given to items. -/
def reservedNames : List String :=
  ["true", "True", "false", "False", "none", "None", "loop", "self"]

/-- Reads the names for items, with commas between them, up to the word that ends them. -/
def names? : List Token → Option (List String × List Token)
  | .word s :: .word w :: ts =>
    if w = "in" ∧ s ∉ reservedNames then some ([s], ts) else none
  | .word s :: .mark ',' :: ts => do
    if s ∈ reservedNames then none
    let (names, rest) ← names? ts
    return (s :: names, rest)
  | _ => none

/-- Reads a statement. -/
def statement? : List Token → Option Statement
  | [.word "else"] => some .otherwise
  | [.word "endif"] => some .endCondition
  | [.word "endfor"] => some .endLoop
  | .word "if" :: ts => (expr? ts).map .condition
  | .word "for" :: ts => do
    let (names, rest) ← names? ts
    return .loop names (← expr? rest)
  | _ => none

/-! ### Blocks -/

/-- A statement whose end has not been read. -/
inductive Block where
  | condition (e : Expr)
  | otherwise (e : Expr) (yes : List Node)
  | loop (names : List String) (items : Expr)

/-- The parts that have been read. -/
structure Builder where
  /-- The parts of the innermost block, last first. -/
  nodes : List Node := []
  /-- The open blocks, innermost first, each with the parts before it, last first. -/
  outer : List (Block × List Node) := []

namespace Builder

/-- Adds a part. -/
def add (b : Builder) (node : Node) : Builder :=
  { b with nodes := node :: b.nodes }

/-- Opens a block. -/
def start (b : Builder) (block : Block) : Builder :=
  ⟨[], (block, b.nodes) :: b.outer⟩

/-- Follows a statement, if it may stand here. -/
def follow (b : Builder) : Statement → Option Builder
  | .condition e => some (b.start (.condition e))
  | .loop names items => some (b.start (.loop names items))
  | .otherwise =>
    match b.outer with
    | (.condition e, before) :: outer => some ⟨[], (.otherwise e b.nodes.reverse, before) :: outer⟩
    | _ => none
  | .endCondition =>
    match b.outer with
    | (.condition e, before) :: outer => some ⟨.branch e b.nodes.reverse [] :: before, outer⟩
    | (.otherwise e yes, before) :: outer => some ⟨.branch e yes b.nodes.reverse :: before, outer⟩
    | _ => none
  | .endLoop =>
    match b.outer with
    | (.loop names items, before) :: outer =>
      some ⟨.loop names items b.nodes.reverse :: before, outer⟩
    | _ => none

/-- Adds a piece of a template, if it is well-formed. -/
def addPiece (b : Builder) : Piece → Option Builder
  | .text l => some (b.add (.text l))
  | .output ts => (expr? ts).map fun e => b.add (.output e)
  | .statement ts => do b.follow (← statement? ts)

end Builder

/-- The text without one line break at its end. -/
def withoutFinalBreak (l : List Char) : List Char :=
  let r := l.reverse
  let r := if r.head? = some '\n' then r.tail else r
  let r := if r.head? = some '\r' then r.tail else r
  r.reverse

/-- Reads a template, without the line break at its end. -/
def parse? (l : List Char) : Option (List Node) := do
  let pieces ← pieces? (withoutFinalBreak l)
  let b ← pieces.foldlM Builder.addPiece {}
  if b.outer.isEmpty then some b.nodes.reverse else none

end Template
end TextualData
