import TextualData.Decimal.Text
import TextualData.Document.Number
import TextualData.Text.QuotedExactly

/-!
# YAML trees

The tree of a YAML document, whose mappings may have keys of any kind, and its value. Tags have no
meaning for values; nulls and keys that are no strings have none. As keys, mappings with the same
entries are the same in any order.
-/

namespace TextualData

/-- The tree of a YAML document. -/
inductive Yaml where
  | null
  | boolean (b : Bool)
  | number (n : DocumentNumber)
  | string (s : String)
  | sequence (items : List Yaml)
  | mapping (entries : List (Yaml × Yaml))
  /-- A node with a tag of the document's own. -/
  | tagged (tag : String) (node : Yaml)

namespace Yaml

/-! ### Nodes in messages -/

/-- The least number of zeros after the point for which a message writes an exponent. -/
def exponentZeros : Int := 5

/-- Of two texts of a number that are equally near, a message has the even one. -/
def numberTie : Tie := .even

/-- A number as it is written in a message. -/
def numberText : DocumentNumber → String
  | .whole n => String.ofList (Numeral.ofInt n)
  | .float f =>
    if f.isNaN || f.isInf then DocumentNumber.specialText f
    else String.ofList (Decimal.floatTextWithExponent numberTie exponentZeros f)

mutual

/-- A node as it is shown in a message. -/
def shown : Yaml → String
  | null => "Null"
  | boolean b => s!"Bool({b})"
  | number n => "Number(" ++ numberText n ++ ")"
  | string s => "String(" ++ Text.quoteExactly s ++ ")"
  | sequence items => "Sequence [" ++ shownItems items ++ "]"
  | mapping entries => "Mapping \x7b" ++ shownEntries entries ++ "\x7d"
  | tagged tag node => "TaggedValue \x7b tag: !" ++ tag ++ ", value: " ++ shown node ++ " \x7d"

/-- Nodes as they are shown in a message, with commas between them. -/
def shownItems : List Yaml → String
  | [] => ""
  | [t] => shown t
  | t :: ts => shown t ++ ", " ++ shownItems ts

/-- A key as it is shown in a message about the mapping. -/
def shownKey : Yaml → String
  | boolean b => s!"{b}"
  | number n => numberText n
  | string s => Text.quoteExactly s
  | t => shown t

/-- Entries as they are shown in a message, with commas between them. -/
def shownEntries : List (Yaml × Yaml) → String
  | [] => ""
  | [(k, t)] => shownKey k ++ ": " ++ shown t
  | (k, t) :: ts => shownKey k ++ ": " ++ shown t ++ ", " ++ shownEntries ts

end

/-! ### Values -/

mutual

/-- The value of a tree. -/
def toValue : Yaml → Except LoadFault Value
  | null => .error .yamlNull
  | boolean b => .ok (.boolean b)
  | number n => n.toValue
  | string s => .ok (.string s)
  | sequence items => do return .sequence (← toValues items)
  | mapping entries => do return .hash (← toEntries [] entries)
  | tagged _ node => toValue node

/-- The values of trees in order. -/
def toValues : List Yaml → Except LoadFault (List Value)
  | [] => .ok []
  | t :: ts => do
    let v ← toValue t
    return v :: (← toValues ts)

/-- Adds the values of entries to a hash, in order. Their keys have to be strings. -/
def toEntries : Hash → List (Yaml × Yaml) → Except LoadFault Hash
  | h, [] => .ok h
  | h, (string key, t) :: ts => do
    let v ← toValue t
    toEntries (h.insert key v) ts
  | _, (key, _) :: _ => .error (.yamlKey key.shown)

end

/-! ### Equality of keys -/

/-- Whether two numbers are the same key. -/
def sameNumber : DocumentNumber → DocumentNumber → Bool
  | .whole m, .whole n => m == n
  | .float f, .float g => f == g || f.isNaN && g.isNaN
  | _, _ => false

mutual

/-- Whether two trees are the same key. -/
def same : Yaml → Yaml → Bool
  | null, null => true
  | boolean a, boolean b => a == b
  | number m, number n => sameNumber m n
  | string s, string t => s == t
  | sequence ts, sequence us => sameItems ts us
  | mapping ts, mapping us => ts.length == us.length && areEntriesOf us ts
  | tagged s t, tagged u v => s == u && same t v
  | _, _ => false

/-- Whether two lists hold the same trees in the same order. -/
def sameItems : List Yaml → List Yaml → Bool
  | [], [] => true
  | t :: ts, u :: us => same t u && sameItems ts us
  | _, _ => false

/-- Whether every one of the entries in the second list is in the first one, in any order. -/
def areEntriesOf (us : List (Yaml × Yaml)) : List (Yaml × Yaml) → Bool
  | [] => true
  | (k, t) :: ts => us.any (fun (l, u) => same k l && same t u) && areEntriesOf us ts

end

/-- Whether a key is among the keys of entries. -/
def hasKey (key : Yaml) (entries : List (Yaml × Yaml)) : Bool :=
  entries.any fun e => same e.1 key

end Yaml
end TextualData
