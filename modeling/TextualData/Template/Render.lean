import TextualData.Decimal.Text
import TextualData.Error.Basic
import TextualData.Template.Basic
import TextualData.Text.QuotedExactly
import TextualData.Value.Plain

/-!
# Rendering of templates

`Template.render` prints a template with the entries of a hash as its variables. Records print and
repeat in the order of their keys. A variable that does not exist prints nothing and counts as
false, but has no fields.
-/

namespace TextualData

/-! ### Plain data in templates -/

namespace Plain

/-- Texts under keys in ascending order of the keys. -/
def sortByKey {α : Type} (l : List (String × α)) : List (String × α) :=
  l.mergeSort fun a b => !(b.1 < a.1)

/-- The word for a truth value. -/
def flagText (b : Bool) : String :=
  if b then "True" else "False"

/-- The text of an infinite number. -/
def infinityText (f : Float) : String :=
  if f < 0.0 then "-inf" else "inf"

/-- The least number of zeros after the point for which a number inside a list has an exponent. -/
def exponentZeros : Int := 4

/-- Of two texts of a number that are equally near, the greater one is printed. -/
def numberTie : Tie := .up

mutual

/-- How data is shown inside a list or a record. -/
def shown : Plain → String
  | text s => Text.quoteExactly s
  | integer n => toString n.toInt
  | float f =>
    if f.isInf then infinityText f
    else String.ofList (Decimal.floatTextWithExponent numberTie exponentZeros f)
  | flag b => flagText b
  | list items => "[" ++ String.intercalate ", " (shownItems items) ++ "]"
  | record fields =>
    let texts := (sortByKey (shownFields fields)).map fun e => Text.quoteExactly e.1 ++ ": " ++ e.2
    "\x7b" ++ String.intercalate ", " texts ++ "\x7d"

/-- How each item of a list is shown. -/
def shownItems : List Plain → List String
  | [] => []
  | v :: vs => shown v :: shownItems vs

/-- How what stands under each key is shown. -/
def shownFields : List (String × Plain) → List (String × String)
  | [] => []
  | (k, v) :: es => (k, shown v) :: shownFields es

end

/-- How data is printed. -/
def printed : Plain → String
  | text s => s
  | float f => if f.isInf then infinityText f else String.ofList (Decimal.floatText numberTie f)
  | v => v.shown

/-- Whether data counts as true: it is not empty, zero or false. -/
def isTrue : Plain → Bool
  | text s => !s.isEmpty
  | integer n => n != 0
  | float f => f != 0.0
  | flag b => b
  | list items => !items.isEmpty
  | record fields => !fields.isEmpty

/-- What a record holds under a key. -/
def field? (key : String) : Plain → Option Plain
  | record fields => fields.lookup key
  | _ => none

/-- The place of an index among the given number of items; a negative one counts from the end. -/
def place? (length : Nat) (index : Int) : Option Nat :=
  match index with
  | .ofNat n => some n
  | .negSucc n => if n < length then some (length - (n + 1)) else none

/-- The item at an index of a list, or the character of a text. -/
def item? (index : Int) : Plain → Option Plain
  | list items => do items[(← place? items.length index)]?
  | text s => do
    let c ← s.toList[(← place? s.length index)]?
    return .text (String.singleton c)
  | _ => none

/-- The keys of a record in order. -/
def keyItems (fields : List (String × Plain)) : List Plain :=
  (sortByKey fields).map fun e => .text e.1

/-- What a repetition goes over: items, the keys of a record, the characters of a text. -/
def items? : Plain → Option (List Plain)
  | list items => some items
  | record fields => some (keyItems fields)
  | text s => some (s.toList.map fun c => .text (String.singleton c))
  | _ => none

/-- What several names stand for together: items, or the keys of a record. -/
def parts? : Plain → Option (List Plain)
  | list items => some items
  | record fields => some (keyItems fields)
  | _ => none

/-- The keys of a record with their values, each a list of two. -/
def entries? : Plain → Option Plain
  | record fields => some (.list ((sortByKey fields).map fun e => .list [.text e.1, e.2]))
  | _ => none

end Plain

namespace Template

/-- Why a template cannot be rendered. -/
inductive Fault where
  | malformed
  /-- A field of a variable that does not exist is asked for. -/
  | undefinedValue
  /-- A repetition goes over something that has no items. -/
  | notIterable
  /-- The entries of something that is no record are asked for. -/
  | notRecord
  /-- There are more or fewer names than there are values for them. -/
  | wrongLength
deriving DecidableEq, Repr

/-- The message for a template that cannot be rendered. -/
def Fault.message : Fault → String
  | malformed => "malformed template"
  | undefinedValue => "undefined value"
  | notIterable => "value has no items"
  | notRecord => "value has no entries"
  | wrongLength => "wrong number of values"

/-- The variables, innermost first. -/
abbrev Scope := List (String × Plain)

/-- The result of an expression, `none` if it does not exist. -/
def Expr.evaluate (scope : Scope) : Expr → Except Fault (Option Plain)
  | name s => .ok (scope.lookup s)
  | flag b => .ok (some (.flag b))
  | field e key => do
    match ← e.evaluate scope with
    | some v => return v.field? key
    | none => throw .undefinedValue
  | item e index => do
    match ← e.evaluate scope with
    | some v => return v.item? index
    | none => throw .undefinedValue
  | entries e => do
    match (← e.evaluate scope).bind Plain.entries? with
    | some v => return some v
    | none => throw .notRecord
  | negation e => do
    return some (.flag (!(← e.evaluate scope).any Plain.isTrue))

/-- What a repetition goes over. What does not exist has no items. -/
def itemsOf : Option Plain → Except Fault (List Plain)
  | none => .ok []
  | some v =>
    match v.items? with
    | some items => .ok items
    | none => .error .notIterable

/-- The variables for an item. -/
def bind (names : List String) (item : Plain) : Except Fault Scope :=
  match names with
  | [name] => .ok [(name, item)]
  | names =>
    match item.parts? with
    | some values =>
      if values.length = names.length then .ok (names.zip values) else .error .wrongLength
    | none => .error .notIterable

/-- A count as data. -/
def count (n : Nat) : Plain :=
  .integer (Int64.ofNat n)

/-- What a template can see of a repetition, at an index out of the given number of items. -/
def loopRecord (index length : Nat) : Plain :=
  .record [("index", count (index + 1)), ("index0", count index),
    ("first", .flag (index == 0)), ("last", .flag (index + 1 == length)),
    ("length", count length)]

/-- The variables for each item of a repetition. -/
def iterations (scope : Scope) (names : List String) (items : List Plain) :
    Except Fault (List Scope) :=
  items.zipIdx.mapM fun (item, index) => do
    return (← bind names item) ++ ("loop", loopRecord index items.length) :: scope

mutual

/-- Prints a part of a template. -/
def Node.render (scope : Scope) : Node → Except Fault String
  | .text l => .ok (String.ofList l)
  | .output e => do
    return ((← e.evaluate scope).map Plain.printed).getD ""
  | .branch condition yes no => do
    if (← condition.evaluate scope).any Plain.isTrue then renderNodes scope yes
    else renderNodes scope no
  | .loop names items body => do
    let scopes ← iterations scope names (← itemsOf (← items.evaluate scope))
    return String.join (← scopes.mapM fun scope => renderNodes scope body)

/-- Prints parts of a template in order. -/
def renderNodes (scope : Scope) : List Node → Except Fault String
  | [] => .ok ""
  | node :: nodes => do
    return (← node.render scope) ++ (← renderNodes scope nodes)

end

/-- Prints a template with the entries of a hash as its variables. A template that can be read is
printed only if the variables have a plain form; otherwise the program stops. -/
def render? (template : String) (data : Hash) : Option (Except Error String) :=
  let fail (fault : Fault) : Error := .document .template fault.message
  match parse? template.toList with
  | some nodes =>
    (Value.toPlainEntries? data).map fun scope => (renderNodes scope nodes).mapError fail
  | none => some (.error (fail .malformed))

end Template
end TextualData
