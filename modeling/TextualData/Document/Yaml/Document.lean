import TextualData.Document.Yaml.Layout
import TextualData.Document.Yaml.Node
import TextualData.Document.Yaml.Scalar
import TextualData.Text.Lines

/-!
# YAML documents

`Yaml.parse?` reads a text that holds at most one document into a tree, in which references are
replaced by what they stand for. No key may occur twice in a mapping, and there are limits to the
nesting of collections and to the number of references that are followed.
-/

namespace TextualData
namespace Yaml

/-! ### Trees of nodes -/

/-- The greatest number of collections within each other. -/
def nestingLimit : Nat := 128

/-- The number of references that may be followed for each place where a node begins or ends. -/
def followedPerEdge : Nat := 100

/-- A computation that follows references and counts them, or refuses the document. -/
abbrev Following := StateT Nat Option

/-- The node that a node stands for: a reference stands for another one. -/
def followed (d : Document) (limit : Nat) : Node → Following Node
  | .reference target => do
    let count := (← get) + 1
    if limit < count then failure
    set count
    match d.node? target with
    | some n => return n
    | none => failure
  | n => return n

/-- The tree with a tag of the document's own, if it has one that counts. -/
def withTag (isTagIgnored : Bool) (tag : Option Tag) (tree : Yaml) : Yaml :=
  match isTagIgnored, tag with
  | false, some (.own name) => .tagged name tree
  | _, _ => tree

/-- Whether the tags of the keys in a mapping are ignored: they are if the mapping has a tag of the
document's own, and if it is itself a key whose tag is ignored. -/
def ignoresKeyTags (isTagIgnored : Bool) : Option Tag → Bool
  | some (.own _) => true
  | _ => isTagIgnored

/-- The tree of a node within so many further collections. -/
def ofNode (d : Document) (limit : Nat) : (depth : Nat) → (isTagIgnored : Bool) → Node →
    Following Yaml
  | depth, isTagIgnored, n => do
    let isTagIgnored := match n with
      | .reference _ => false
      | _ => isTagIgnored
    match depth, ← followed d limit n with
    | _, .scalar tag isPlain text =>
      match ofScalar? (if isTagIgnored then none else tag) isPlain text with
      | some tree => return tree
      | none => failure
    | depth + 1, .sequence tag items =>
      let trees ← items.mapM fun item => ofNode d limit depth false item
      return withTag isTagIgnored tag (.sequence trees)
    | depth + 1, .mapping tag entries =>
      let ignoresTags := ignoresKeyTags isTagIgnored tag
      let trees ← entries.foldlM (fun trees (k, n) => do
        let key ← ofNode d limit depth ignoresTags k
        let value ← ofNode d limit depth false n
        if hasKey key trees then failure
        return (key, value) :: trees) []
      return withTag isTagIgnored tag (.mapping trees.reverse)
    | _, _ => failure

/-! ### Reading -/

/-- The next line, which separates lines as a line feed does. -/
def nextLine : Char := '\u0085'

/-- Whether the character may occur in a document. -/
def isAllowed (c : Char) : Bool :=
  let n := c.toNat
  n == 0x09 || n == 0x0A || 0x20 ≤ n && n ≤ 0x7E || 0xA0 ≤ n && n ≤ 0xFFFD || 0x10000 ≤ n

/-- The characters of a text with a line feed for each line break that is no separator. -/
def characters (text : String) : List Char :=
  (Text.normalizeLineBreaks text.toList).map fun c => if c = nextLine then '\n' else c

/-- The tree of a YAML document, `none` if the text is not one. A text without a document is
null. -/
def parse? (text : String) : Option Yaml := do
  let l := characters text
  if !l.all isAllowed then none
  let d ← Document.ofTokens? (← Token.ofChars? l)
  let limit := followedPerEdge * d.root.edgeCount
  let (tree, _) ← (ofNode d limit nestingLimit false d.root).run 0
  return tree

end Yaml
end TextualData
