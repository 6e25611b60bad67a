import TextualData.Decimal.Basic
import TextualData.Entries
import TextualData.Text.Offset

/-!
# Values

A `Value` is what a text denotes: strings, numbers, booleans, sequences and hashes, and two forms
that put something off: a function call that nothing resolved, and a `Fragment` of source text
that was not evaluated. Numbers that fit in 64 bits are integers, all others decimals.
-/

namespace TextualData

/-- A part of a text kept for later evaluation, with the whole text, the byte offsets of its two
ends, and the file that the text comes from, if known. -/
structure Fragment where
  /-- The whole text that contains the fragment. -/
  text : String
  /-- The byte offset of the first character. -/
  start : Nat
  /-- The byte offset after the last character. -/
  stop : Nat
  file : Option String
deriving DecidableEq, Repr

/-- The text of the fragment itself. -/
def Fragment.content (f : Fragment) : String :=
  String.ofList (Text.slice f.text.toList f.start f.stop)

/-- The result of evaluating an expression. The keys of a hash are distinct, and their order is
the order in which they were first given. -/
inductive Value where
  | string (s : String)
  | integer (n : Int64)
  | decimal (d : Decimal)
  | boolean (b : Bool)
  | sequence (items : List Value)
  | hash (entries : List (String × Value))
  /-- A function call, its parameters already evaluated, that nothing resolved. -/
  | call (name : String) (params : List Value)
  /-- Source text whose evaluation was put off. -/
  | fragment (f : Fragment)

/-- Values under string keys, in order. -/
abbrev Hash := Entries Value

/-- A call of a named function with evaluated parameters. -/
structure FunctionCall where
  name : String
  params : List Value

/-- The call as a value, that is, left unresolved. -/
def FunctionCall.toValue (call : FunctionCall) : Value :=
  .call call.name call.params

namespace Value

/-- The kinds of values that messages tell apart. -/
inductive Kind where
  | string
  | number
  | boolean
  | sequence
  | hash
  | call
  | fragment
deriving DecidableEq, Repr

/-- The name of a kind in a message. -/
def Kind.name : Kind → String
  | string => "string"
  | number => "number"
  | boolean => "boolean"
  | sequence => "sequence"
  | hash => "hash"
  | call => "function call"
  | fragment => "fragment"

/-- The kind of a value. -/
def kind : Value → Kind
  | string _ => .string
  | integer _ => .number
  | decimal _ => .number
  | boolean _ => .boolean
  | sequence _ => .sequence
  | hash _ => .hash
  | call _ _ => .call
  | fragment _ => .fragment

/-- The string, if the value is one. -/
def string? : Value → Option String
  | string s => some s
  | _ => none

/-- The entries, if the value is a hash. -/
def hash? : Value → Option Hash
  | hash entries => some entries
  | _ => none

/-- The items, if the value is a sequence. -/
def sequence? : Value → Option (List Value)
  | sequence items => some items
  | _ => none

end Value
end TextualData
