import TextualData.Text.Quoted
import TextualData.Value.Basic

/-!
# Values as text

`Value.dump?` writes a value in the notation itself. Hashes and sequences take a line for each
item, indented by four columns; the parameters of a function call stay on one line. A value
without fragments reads back as an equal value, unless a call in it begins a line with a sign that
has a meaning there. A decimal without a literal stops the program, and then there is no text at all.
-/

namespace TextualData
namespace Value

/-- The indentation of one level. -/
def indentStep : List Char := [' ', ' ', ' ', ' ']

mutual

/-- The value on a single line. -/
def inline? : Value → Option (List Char)
  | string s => some (Text.quote s).toList
  | integer n => some (Numeral.ofInt n.toInt)
  | decimal d => d.literal?
  | boolean b => some (if b then "true" else "false").toList
  | sequence items => do return '[' :: ((← inlineItems? items) ++ [']'])
  | hash entries => do return '{' :: ((← inlineEntries? entries) ++ ['}'])
  | call name params => do return name.toList ++ '(' :: ((← inlineItems? params) ++ [')'])
  | fragment f => some ("<fragment ".toList ++ (Text.quote f.content).toList ++ ['>'])

/-- Values on a single line, with a comma and a space between them. -/
def inlineItems? : List Value → Option (List Char)
  | [] => some []
  | [v] => inline? v
  | v :: vs => do return (← inline? v) ++ ',' :: ' ' :: (← inlineItems? vs)

/-- Entries on a single line, with a comma and a space between them. -/
def inlineEntries? : List (String × Value) → Option (List Char)
  | [] => some []
  | [(k, v)] => do return (Text.quote k).toList ++ ':' :: (← inline? v)
  | (k, v) :: es => do
    return (Text.quote k).toList ++ ':' :: ((← inline? v) ++ ',' :: ' ' :: (← inlineEntries? es))

end

section
variable {items params : List Value} {entries : List (String × Value)} {v w : Value}
  {vs : List Value} {es : List (String × Value)} {e : String × Value} {k name : String}
  {l : List Char}

theorem inline?_string (s : String) : inline? (.string s) = some (Text.quote s).toList := rfl

theorem inline?_integer (n : Int64) : inline? (.integer n) = some (Numeral.ofInt n.toInt) := rfl

theorem inline?_decimal (d : Decimal) : inline? (.decimal d) = d.literal? := rfl

theorem inline?_boolean (b : Bool) :
    inline? (.boolean b) = some (if b then "true" else "false").toList := rfl

theorem inline?_sequence_eq_some : inline? (.sequence items) = some l ↔
    ∃ m, inlineItems? items = some m ∧ '[' :: (m ++ [']']) = l := by
  simp [inline?, Option.bind_eq_some_iff]

theorem inline?_hash_eq_some : inline? (.hash entries) = some l ↔
    ∃ m, inlineEntries? entries = some m ∧ '{' :: (m ++ ['}']) = l := by
  simp [inline?, Option.bind_eq_some_iff]

theorem inline?_call_eq_some : inline? (.call name params) = some l ↔
    ∃ m, inlineItems? params = some m ∧ name.toList ++ '(' :: (m ++ [')']) = l := by
  simp [inline?, Option.bind_eq_some_iff]

theorem inlineItems?_singleton : inlineItems? [v] = inline? v := rfl

theorem inlineItems?_cons_cons_eq_some : inlineItems? (v :: w :: vs) = some l ↔
    ∃ m, inline? v = some m ∧ ∃ n, inlineItems? (w :: vs) = some n ∧ m ++ ',' :: ' ' :: n = l := by
  simp [inlineItems?, Option.bind_eq_some_iff]

theorem inlineEntries?_singleton_eq_some : inlineEntries? [(k, v)] = some l ↔
    ∃ m, inline? v = some m ∧ (Text.quote k).toList ++ ':' :: m = l := by
  simp [inlineEntries?, Option.bind_eq_some_iff]

theorem inlineEntries?_cons_cons_eq_some : inlineEntries? ((k, v) :: e :: es) = some l ↔
    ∃ m, inline? v = some m ∧ ∃ n, inlineEntries? (e :: es) = some n ∧
      (Text.quote k).toList ++ ':' :: (m ++ ',' :: ' ' :: n) = l := by
  simp [inlineEntries?, Option.bind_eq_some_iff]

end

mutual

/-- The value over several lines, all but the first of which begin with `indent`. -/
def block? (indent : List Char) : Value → Option (List Char)
  | hash entries => do
    return '{' :: '\n' :: ((← blockEntries? (indent ++ indentStep) entries) ++ indent ++ ['}'])
  | sequence items => do
    return '[' :: '\n' :: ((← blockItems? (indent ++ indentStep) items) ++ indent ++ [']'])
  | v => inline? v

/-- Values on lines of their own. -/
def blockItems? (indent : List Char) : List Value → Option (List Char)
  | [] => some []
  | v :: vs => do return indent ++ (← block? indent v) ++ '\n' :: (← blockItems? indent vs)

/-- Entries on lines of their own. -/
def blockEntries? (indent : List Char) : List (String × Value) → Option (List Char)
  | [] => some []
  | (k, v) :: es => do
    return indent ++ (Text.quote k).toList ++
      ':' :: ' ' :: ((← block? indent v) ++ '\n' :: (← blockEntries? indent es))

end

section
variable {items : List Value} {entries : List (String × Value)} {v : Value} {k : String}
  {vs : List Value} {es : List (String × Value)} {indent l : List Char}

theorem block?_sequence_eq_some : block? indent (.sequence items) = some l ↔
    ∃ m, blockItems? (indent ++ indentStep) items = some m ∧
      '[' :: '\n' :: (m ++ indent ++ [']']) = l := by
  simp [block?, Option.bind_eq_some_iff]

theorem block?_hash_eq_some : block? indent (.hash entries) = some l ↔
    ∃ m, blockEntries? (indent ++ indentStep) entries = some m ∧
      '{' :: '\n' :: (m ++ indent ++ ['}']) = l := by
  simp [block?, Option.bind_eq_some_iff]

theorem blockItems?_cons_eq_some : blockItems? indent (v :: vs) = some l ↔
    ∃ m, block? indent v = some m ∧ ∃ n, blockItems? indent vs = some n ∧
      indent ++ m ++ '\n' :: n = l := by
  simp [blockItems?, Option.bind_eq_some_iff]

theorem blockEntries?_cons_eq_some : blockEntries? indent ((k, v) :: es) = some l ↔
    ∃ m, block? indent v = some m ∧ ∃ n, blockEntries? indent es = some n ∧
      indent ++ (Text.quote k).toList ++ ':' :: ' ' :: (m ++ '\n' :: n) = l := by
  simp [blockEntries?, Option.bind_eq_some_iff]

end

/-- The value as text, one item per line. -/
def dump? (v : Value) : Option String :=
  (block? [] v).map String.ofList

end Value

/-- The call as text. -/
def FunctionCall.text? (call : FunctionCall) : Option String :=
  call.toValue.dump?

end TextualData
