import TextualData.Document.Yaml.Token
import TextualData.Entries

/-!
# Nodes

A `Node` is a node of a document as it is written: with its tag, and with references in place of
the nodes they stand for. `Document.ofTokens?` gives the node of a document with those that have
names. Names count by number. A name that is given again gets the number of names known by then, so
that it may share its number with a later name; a number stands for the node that began last.
-/

namespace TextualData
namespace Yaml

/-- A node as it is written. -/
inductive Node where
  | reference (number : Nat)
  /-- A scalar, which is plain or has a style that makes it a string. -/
  | scalar (tag : Option Tag) (isPlain : Bool) (text : String)
  | sequence (tag : Option Tag) (items : List Node)
  | mapping (tag : Option Tag) (entries : List (Node × Node))

namespace Node

/-- The node that is left out. -/
def empty : Node :=
  scalar none true ""

mutual

/-- The number of places at which a node within the given one begins or ends; a scalar and a
reference have only one. -/
def edgeCount : Node → Nat
  | reference _ => 1
  | scalar .. => 1
  | sequence _ items => 2 + itemEdgeCount items
  | mapping _ entries => 2 + entryEdgeCount entries

/-- The number of such places within nodes. -/
def itemEdgeCount : List Node → Nat
  | [] => 0
  | n :: ns => edgeCount n + itemEdgeCount ns

/-- The number of such places within entries. -/
def entryEdgeCount : List (Node × Node) → Nat
  | [] => 0
  | (k, n) :: es => edgeCount k + edgeCount n + entryEdgeCount es

end

end Node

/-- A document as it is written. -/
structure Document where
  root : Node
  /-- The numbers of the nodes with names and their places in the order of beginnings, last one
  first. -/
  begun : List (Nat × Nat)
  /-- The nodes with names by their places in that order. -/
  named : List (Nat × Node)

/-! ### Drafts -/

/-- The nodes with names of a document as far as they have been found. -/
structure Draft where
  tokens : List Token
  handles : TagHandles := standardHandles
  names : Entries Nat := []
  /-- The nodes that have begun, as in a document. -/
  begun : List (Nat × Nat) := []
  /-- The nodes that have ended, as in a document. -/
  named : List (Nat × Node) := []

/-- A computation that finds nodes, or refuses the tokens. -/
abbrev Builder := StateT Draft Option

namespace Builder

/-- The next token, which stays. -/
def peek? : Builder (Option Token) := do
  return (← get).tokens.head?

/-- Takes the next token. -/
def skip : Builder Unit :=
  modify fun d => { d with tokens := d.tokens.tail }

/-- Whether one of the given tokens is next. -/
def nextIs (ts : List Token) : Builder Bool := do
  return (← peek?).any fun t => ts.contains t

/-- Takes a given token if it is next, and tells whether it was. -/
def accept (t : Token) : Builder Bool := do
  if ← nextIs [t] then
    skip
    return true
  else return false

/-- Takes a given token. -/
def expect (t : Token) : Builder Unit := do
  unless ← accept t do failure

/-! ### Names and tags -/

/-- Takes the name that is given to a node. -/
def anchor? : Builder (Option String) := do
  match ← peek? with
  | some (.anchor name) =>
    skip
    return some name
  | _ => return none

/-- Takes the tag of a node. -/
def tag? : Builder (Option WrittenTag) := do
  match ← peek? with
  | some (.tag t) =>
    skip
    return some t
  | _ => return none

/-- The name and the tag of a node. -/
structure Properties where
  anchor : Option String
  tag : Option WrittenTag

/-- Takes the name and the tag of a node in either order. -/
def properties : Builder Properties := do
  match ← anchor? with
  | some name => return ⟨some name, ← tag?⟩
  | none =>
    let tag ← tag?
    return ⟨← anchor?, tag⟩

/-- The meaning of a tag, whose handle has to have one. -/
def meaning : Option WrittenTag → Builder (Option Tag)
  | none => return none
  | some t => do
    match t.octets? (← get).handles with
    | some octets => return Tag.ofOctets? octets
    | none => failure

/-- The reference by a name, which has to have been given before. -/
def reference (name : String) : Builder Node := do
  match (← get).names.get? name with
  | some number => return .reference number
  | none => failure

/-- Counts the beginning of a node with a name, and gives its place in the order of beginnings. -/
def beginNode : Option String → Builder (Option Nat)
  | none => return none
  | some name => do
    let d ← get
    let number := d.names.length
    set { d with
      names := d.names.insert name number, begun := (number, d.begun.length) :: d.begun }
    return some d.begun.length

/-- Keeps a finished node if it has a name. -/
def endNode (place : Option Nat) (node : Node) : Builder Node := do
  if let some n := place then modify fun d => { d with named := (n, node) :: d.named }
  return node

/-! ### Nodes -/

mutual

/-- Takes a node. It may be a block if `allowsBlock` is set, and a sequence in the column of its
entry if `inEntry` is set. -/
def node : (bound : Nat) → (allowsBlock inEntry : Bool) → Builder Node
  | 0, _, _ => failure
  | bound + 1, allowsBlock, inEntry => do
    match ← peek? with
    | some (.reference name) =>
      skip
      reference name
    | _ =>
      let p ← properties
      let tag ← meaning p.tag
      let place ← beginNode p.anchor
      let isBare := p.anchor.isNone && p.tag.isNone
      endNode place (← content bound allowsBlock inEntry isBare tag)

/-- Takes a node without its properties. Only a node that has some may be left out. -/
def content : (bound : Nat) → (allowsBlock inEntry isBare : Bool) → Option Tag → Builder Node
  | 0, _, _, _, _ => failure
  | bound + 1, allowsBlock, inEntry, isBare, tag => do
    match ← peek? with
    | some (.scalar isPlain text) =>
      skip
      return .scalar tag isPlain text
    | some .openBracket =>
      skip
      return .sequence tag (← flowItems bound [])
    | some .openBrace =>
      skip
      return .mapping tag (← flowEntries bound [])
    | t =>
      if inEntry && t == some .item then return .sequence tag (← entryItems bound [])
      else if allowsBlock && t == some .blockSequence then
        skip
        return .sequence tag (← blockItems bound [])
      else if allowsBlock && t == some .blockMapping then
        skip
        return .mapping tag (← blockEntries bound [])
      else if isBare then failure
      else return .scalar tag true ""

/-- Takes a node that is left out if one of the given tokens is next. -/
def nodeUnless : (bound : Nat) → List Token → (allowsBlock inEntry : Bool) → Builder Node
  | 0, _, _, _ => failure
  | bound + 1, ts, allowsBlock, inEntry => do
    if ← nextIs ts then return .empty else node bound allowsBlock inEntry

/-- Takes the items of a block up to its end, after those read before, last one first. -/
def blockItems : (bound : Nat) → (read : List Node) → Builder (List Node)
  | 0, _ => failure
  | bound + 1, read => do
    if ← accept .item then
      let item ← nodeUnless bound [.item, .blockEnd] true false
      blockItems bound (item :: read)
    else
      expect .blockEnd
      return read.reverse

/-- Takes the items of a sequence in the column of its entry, which has no end of its own. -/
def entryItems : (bound : Nat) → (read : List Node) → Builder (List Node)
  | 0, _ => failure
  | bound + 1, read => do
    if ← accept .item then
      let item ← nodeUnless bound [.item, .key, .value, .blockEnd] true false
      entryItems bound (item :: read)
    else return read.reverse

/-- Takes the entries of a block up to its end. -/
def blockEntries : (bound : Nat) → (read : List (Node × Node)) → Builder (List (Node × Node))
  | 0, _ => failure
  | bound + 1, read => do
    if ← accept .key then
      let key ← nodeUnless bound [.key, .value, .blockEnd] true true
      let value ←
        if ← accept .value then nodeUnless bound [.key, .value, .blockEnd] true true
        else pure .empty
      blockEntries bound ((key, value) :: read)
    else
      expect .blockEnd
      return read.reverse

/-- Takes the value of an entry within brackets. -/
def flowValue : (bound : Nat) → (close : Token) → Builder Node
  | 0, _ => failure
  | bound + 1, close => do
    if ← accept .value then nodeUnless bound [.comma, close] false false else return .empty

/-- Takes the items of a sequence up to its closing bracket. A key makes a mapping of one entry;
if the key is left out, so is the token after its mark. -/
def flowItems : (bound : Nat) → (read : List Node) → Builder (List Node)
  | 0, _ => failure
  | bound + 1, read => do
    if ← accept .closeBracket then return read.reverse
    unless read.isEmpty do expect .comma
    if ← accept .closeBracket then return read.reverse
    if ← accept .key then
      let isMissing ← nextIs [.value, .comma, .closeBracket]
      if isMissing then skip
      let key ← if isMissing then pure .empty else node bound false false
      let value ← flowValue bound .closeBracket
      flowItems bound (.mapping none [(key, value)] :: read)
    else
      let item ← node bound false false
      flowItems bound (item :: read)

/-- Takes the entries of a mapping up to its closing brace. -/
def flowEntries : (bound : Nat) → (read : List (Node × Node)) → Builder (List (Node × Node))
  | 0, _ => failure
  | bound + 1, read => do
    if ← accept .closeBrace then return read.reverse
    unless read.isEmpty do expect .comma
    if ← accept .closeBrace then return read.reverse
    if ← accept .key then
      let key ← nodeUnless bound [.value, .comma, .closeBrace] false false
      let value ← flowValue bound .closeBrace
      flowEntries bound ((key, value) :: read)
    else
      let key ← node bound false false
      flowEntries bound ((key, .empty) :: read)

end

/-! ### Documents -/

/-- The versions of the notation that a directive may name. -/
def versions : List (Nat × Nat) := [(1, 1), (1, 2)]

/-- The meaning of the tag handles after directives. At most one of them gives a version, and none
repeats a handle. -/
def handlesOf? (directives : List Token) : Option TagHandles :=
  let named := directives.filterMap fun t =>
    match t with
    | .version major minor => some (major, minor)
    | _ => none
  let handles := directives.filterMap fun t =>
    match t with
    | .tagHandle handle start => some (handle, start)
    | _ => none
  if 1 < named.length || !named.all versions.contains then none
  else if (handles.map Prod.fst).Nodup then some (handles ++ standardHandles)
  else none

/-- Takes the tokens of a document with those of its node. The mark before it may be missing if
there are no directives. -/
def document (bound : Nat) : Builder Node := do
  let (directives, tokens) := (← get).tokens.span Token.isDirective
  match directives, tokens with
  | [], [] => return .empty
  | _, .documentStart :: tokens =>
    let some handles := handlesOf? directives | failure
    modify fun d => { d with tokens := tokens, handles := handles }
    let endsHere : Bool := match tokens with
      | [] => true
      | t :: _ => t.isDirective || t == .documentStart || t == .documentEnd
    if endsHere then return .empty else node bound true false
  | [], _ => node bound true false
  | _, _ => failure

end Builder

/-- The document of which these are the tokens, one that is null if there are none. Nothing but
marks of an end may follow its node. -/
def Document.ofTokens? (tokens : List Token) : Option Document := do
  let (root, d) ← (Builder.document (4 * (tokens.length + 1))).run { tokens := tokens }
  if d.tokens.all (· == .documentEnd) then return ⟨root, d.begun, d.named⟩ else none

/-- The node that a number stands for. -/
def Document.node? (d : Document) (number : Nat) : Option Node :=
  (d.begun.lookup number).bind fun place => d.named.lookup place

end Yaml
end TextualData
