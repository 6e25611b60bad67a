import TextualData.Environment.Basic
import TextualData.Grammar.Extent
import TextualData.Grammar.Separator
import TextualData.Value.Equality

/-!
# Evaluation

A text is evaluated while it is read. `Source.evaluate` reads it as one expression,
`Source.evaluateHash` as the entries of a hash and `Source.evaluateSequence` as the items of a
sequence, both without brackets; `Fragment.evaluate` reads a fragment as one expression. Each
takes the environment with its state, and whether tokens are strings whatever they look like, and
gives the result with the state of the environment after it.
-/

namespace TextualData
namespace Evaluation

variable {σ α π ε : Type}

/-- What does not change during an evaluation. -/
structure Setting (σ : Type) where
  source : Source
  environment : Environment σ

/-! ## Scopes, calls and hashes

What an evaluation does besides reading does not depend on how it moves through the text. All it
needs is the byte offset of a place, and how an error is reported. -/

/-- The places of a text between which an evaluation moves, and the failures it may have. -/
class Places (π : Type) (ε : outParam Type) where
  /-- The byte offset of a place. -/
  offset : π → Nat
  /-- A failure that reports an error. -/
  report (π) : Error → ε

instance : Places Cursor Error where
  offset := Cursor.position
  report := id

/-- What changes during an evaluation. -/
structure StateAt (π σ : Type) where
  cursor : π
  /-- The hashes under construction, innermost first. -/
  openHashes : List Hash
  inner : σ

/-- A computation that may fail and keeps its state also if it does. -/
abbrev EvalAt (ε π σ α : Type) := EStateM ε (StateAt π σ) α

section

variable [Places π ε]

/-- What the environment sees in a state. -/
def StateAt.context (s : StateAt π σ) (source : Source) : Context :=
  ⟨source, Places.offset s.cursor, s.openHashes⟩

/-- Fails at a place with a fault of evaluation. -/
def fail (setting : Setting σ) (position : Nat) (fault : EvaluationFault) : EvalAt ε π σ α :=
  throw (Places.report π (.evaluation fault (setting.source.locate position)))

/-- The byte offset of the cursor. -/
def position : EvalAt ε π σ Nat := do
  return Places.offset (← get).cursor

/-- Tells the environment of an event. An error without a place of its own gets the given one. -/
def notify (setting : Setting σ) (event : Event) (position : Nat) :
    EvalAt ε π σ (Option Response) := fun s =>
  match setting.environment.notify event (s.context setting.source) s.inner with
  | (.ok response, inner) => .ok response { s with inner := inner }
  | (.error e, inner) =>
    let e := if e.isLocated then e else .environment e (setting.source.locate position)
    .error (Places.report π e) { s with inner := inner }

/-- Lets the environment resolve a call; a failure is reported at the given place. -/
def resolve (setting : Setting σ) (call : FunctionCall) (position : Nat) :
    EvalAt ε π σ Value := fun s =>
  match setting.environment.call call (s.context setting.source) s.inner with
  | (.ok v, inner) => .ok v { s with inner := inner }
  | (.error e, inner) =>
    .error (Places.report π (.call call.name (setting.source.locate position) e))
      { s with inner := inner }

/-- Runs a body between the beginning and the end of a scope. The end is told whenever the
beginning was accepted, also if the body fails; the error of the body then goes first. -/
def within (setting : Setting σ) (scope : Scope) (start : Nat)
    (body : Option Response → EvalAt ε π σ α) : EvalAt ε π σ α := do
  let response ← notify setting (.enter scope) start
  fun s =>
    match body response s with
    | .ok a s =>
      match notify setting (.leave scope) (Places.offset s.cursor) s with
      | .ok _ s => .ok a s
      | .error e s => .error e s
    | .error e s =>
      match notify setting (.leave scope) (Places.offset s.cursor) s with
      | .ok _ s => .error e s
      | .error _ s => .error e s

/-- Changes the innermost hash under construction. -/
def modifyHash (f : Hash → Hash) : EvalAt ε π σ Unit :=
  modify fun s =>
    match s.openHashes with
    | [] => s
    | h :: hs => { s with openHashes := f h :: hs }

/-- Puts a value under a key of the innermost hash. -/
def put (key : String) (v : Value) : EvalAt ε π σ Unit :=
  modifyHash fun h => h.insert key v

/-- Builds a hash: opens an empty one, runs the body and takes the hash off again, also if the body
fails. -/
def buildHash (body : EvalAt ε π σ α) : EvalAt ε π σ (α × Hash) := fun s =>
  match body { s with openHashes := [] :: s.openHashes } with
  | .ok a s => .ok (a, s.openHashes.headD []) { s with openHashes := s.openHashes.tail }
  | .error e s => .error e { s with openHashes := s.openHashes.tail }

/-- A key that is followed by neither a colon nor a result of a function: it is stored as true,
unless the environment asks to leave it out. -/
def storeFlag (setting : Setting σ) (name : String) (start : Nat) : EvalAt ε π σ Unit :=
  within setting (.key name) start fun response =>
    unless response = some .skip do put name (.boolean true)

/-- Stores an entry without a colon: a key on its own, or the entries of a hash, which may be the
result of a function. -/
def storeBare (setting : Setting σ) (key : Value) (fromCall unresolved : Bool) (start : Nat) :
    EvalAt ε π σ Unit :=
  match key, fromCall with
  | .string name, false => storeFlag setting name start
  | .hash entries, _ => modifyHash fun h => h.merge entries
  | v, false => fail setting start (.entryKind v.kind)
  | v, true =>
    if unresolved then fail setting start .unresolvedKey
    else fail setting start (.resultKind v.kind)

/-- Resolves the call that stands for a key. Tells also whether there was one, and whether it was
left unresolved. -/
def resolveKey (setting : Setting σ) (key : Value) (start : Nat) :
    EvalAt ε π σ (Value × Bool × Bool) :=
  match key with
  | .call name params => do
    let v ← resolve setting ⟨name, params⟩ start
    return (v, true, v.equal (.call name params))
  | v => return (v, false, false)

/-- The key of an entry with a colon, which has to be a string. -/
def keyName (setting : Setting σ) (key : Value) (unresolved : Bool) (start : Nat) :
    EvalAt ε π σ String :=
  match key with
  | .string name => return name
  | v =>
    if unresolved then fail setting start .unresolvedKey
    else fail setting start (.keyKind v.kind)

/-- Runs an evaluation from a place in the text and a state of the environment. -/
def run (m : EvalAt ε π σ α) (start : π) (inner : σ) : Except ε α × σ :=
  match m ⟨start, [], inner⟩ with
  | .ok a s => (.ok a, s.inner)
  | .error e s => (.error e, s.inner)

end

/-! ## Evaluation along a cursor -/

/-- What changes while a cursor moves through the text. -/
abbrev State (σ : Type) := StateAt Cursor σ

/-- An evaluation along a cursor. -/
abbrev EvalM (σ α : Type) := EvalAt Error Cursor σ α

@[simp] theorem offset_cursor (c : Cursor) : Places.offset c = c.position :=
  rfl

@[simp] theorem context_cursor (s : State σ) (source : Source) :
    s.context source = ⟨source, s.cursor.position, s.openHashes⟩ :=
  rfl

@[simp] theorem report_cursor (e : Error) : Places.report Cursor e = e :=
  rfl

/-- Moves the cursor by a scan; a refusal becomes an error with its place in the text. -/
def scan (setting : Setting σ) (m : Scan α) : EvalM σ α := fun s =>
  match m s.cursor with
  | .ok a c => .ok a { s with cursor := c }
  | .error fault c =>
    .error (.malformed fault.cause (setting.source.locate fault.position)) { s with cursor := c }

/-- Moves the cursor over the expression at it and gives the byte offsets of its ends. -/
def passExpression (setting : Setting σ) : EvalM σ (Nat × Nat) := do
  let start ← position
  scan setting Scan.extent
  return (start, ← position)

mutual

/-- Evaluates the expression at the cursor. A token in the place of a key is a string that ends at
a colon, and a call there is not resolved. The number bounds the recursion. -/
def expression (setting : Setting σ) : Nat → (forced inKey : Bool) → EvalM σ Value
  | 0, _, _ => scan setting (Scan.refuse .exhausted)
  | bound + 1, forced, inKey => do
    match (← get).cursor.rest with
    | [] => scan setting (Scan.refuse .unexpectedEnd)
    | c :: rest =>
      if c = '{' then hash setting bound forced
      else if c = '[' then sequence setting bound forced
      else if Literal.isQuotation c then
        return .string (String.ofList (← scan setting (Scan.quoted c)))
      else
        match Literal.rawQuotation? (c :: rest) with
        | some quotation => return .string (String.ofList (← scan setting (Scan.raw quotation)))
        | none => unquoted setting bound forced inKey

/-- Evaluates the hash in braces at the cursor. If the environment answers its beginning, the hash
is kept as a fragment. -/
def hash (setting : Setting σ) : Nat → (forced : Bool) → EvalM σ Value
  | 0, _ => scan setting (Scan.refuse .exhausted)
  | bound + 1, forced => do
    let start := (← get).cursor
    scan setting Scan.next
    let (kept, entries) ← buildHash do
      within setting .hash (← position) fun response => do
        if response.isNone then
          entriesUpTo setting bound (some '}') forced start.position
          return none
        else
          modify fun s => { s with cursor := start }
          let (first, last) ← passExpression setting
          -- Back on the closing brace, like after a hash that is evaluated.
          modify fun s => { s with cursor := s.cursor.previous }
          return some (setting.source.fragment first last)
    scan setting Scan.next
    return kept.elim (.hash entries) .fragment

/-- Evaluates the sequence in brackets at the cursor. -/
def sequence (setting : Setting σ) : Nat → (forced : Bool) → EvalM σ Value
  | 0, _ => scan setting (Scan.refuse .exhausted)
  | bound + 1, forced => do
    let start ← position
    scan setting Scan.next
    let items ← within setting .sequence (← position) fun _ =>
      itemsUpTo setting bound (some ']') forced start
    scan setting Scan.next
    return .sequence items

/-- Evaluates the token at the cursor, or the call that it names if an opening parenthesis
follows. -/
def unquoted (setting : Setting σ) : Nat → (forced inKey : Bool) → EvalM σ Value
  | 0, _, _ => scan setting (Scan.refuse .exhausted)
  | bound + 1, forced, inKey => do
    let start ← position
    let token ← scan setting (Scan.token inKey)
    if token.isEmpty then scan setting (Scan.refuse .unexpectedCharacter)
    let stop := (← get).cursor
    let _ ← scan setting Scan.blanks
    if (← get).cursor.peek? = some '(' then
      let opening ← position
      scan setting Scan.next
      let name := String.ofList token
      let params ← within setting (.params name) start fun _ =>
        itemsUpTo setting bound (some ')') forced opening
      scan setting Scan.next
      if inKey then return .call name params else resolve setting ⟨name, params⟩ start
    else
      modify fun s => { s with cursor := stop }
      return if forced || inKey then .string (String.ofList token) else Token.classify token

/-- Evaluates items up to the closing bracket, or to the end of the text. -/
def itemsUpTo (setting : Setting σ) :
    Nat → (closing : Option Char) → (forced : Bool) → (opening : Nat) → EvalM σ (List Value)
  | 0, _, _, _ => scan setting (Scan.refuse .exhausted)
  | bound + 1, closing, forced, opening => do
    let _ ← scan setting Scan.blanks
    items setting bound closing forced opening

/-- Evaluates the items from the one at the cursor. -/
def items (setting : Setting σ) :
    Nat → (closing : Option Char) → (forced : Bool) → (opening : Nat) → EvalM σ (List Value)
  | 0, _, _, _ => scan setting (Scan.refuse .exhausted)
  | bound + 1, closing, forced, opening => do
    match (← get).cursor.peek?, closing with
    | none, none => return []
    | none, some closing => scan setting (Scan.refuseAt opening (.unclosedList closing))
    | some c, _ =>
      if closing = some c then return []
      else if c = ',' then scan setting (Scan.refuse .missingItem)
      else
        let v ← expression setting bound forced false
        let separator ← scan setting (Scan.separator closing (some .inList))
        if separator = .closing then return [v]
        else return v :: (← items setting bound closing forced opening)

/-- Evaluates entries into the innermost hash, up to the closing bracket or to the end of the
text. -/
def entriesUpTo (setting : Setting σ) :
    Nat → (closing : Option Char) → (forced : Bool) → (opening : Nat) → EvalM σ Unit
  | 0, _, _, _ => scan setting (Scan.refuse .exhausted)
  | bound + 1, closing, forced, opening => do
    let _ ← scan setting Scan.blanks
    entries setting bound closing forced opening

/-- Evaluates the entries from the one at the cursor. -/
def entries (setting : Setting σ) :
    Nat → (closing : Option Char) → (forced : Bool) → (opening : Nat) → EvalM σ Unit
  | 0, _, _, _ => scan setting (Scan.refuse .exhausted)
  | bound + 1, closing, forced, opening => do
    match (← get).cursor.peek?, closing with
    | none, none => return
    | none, some closing => scan setting (Scan.refuseAt opening (.unclosedHash closing))
    | some c, _ =>
      if closing = some c then return
      else if c = ',' then scan setting (Scan.refuse .missingEntry)
      else
        let separator ← entry setting bound closing forced
        if separator = .closing then return
        else entries setting bound closing forced opening

/-- Evaluates the entry at the cursor and what separates it from the next. -/
def entry (setting : Setting σ) : Nat → (closing : Option Char) → (forced : Bool) →
    EvalM σ Separator
  | 0, _, _ => scan setting (Scan.refuse .exhausted)
  | bound + 1, closing, forced => do
    let start ← position
    let key ← expression setting bound false true
    let (key, fromCall, unresolved) ← resolveKey setting key start
    let separator ← scan setting (Scan.separator closing none)
    if separator = .colon then
      let name ← keyName setting key unresolved start
      keyValue setting bound name start forced
      scan setting (Scan.separator closing (some .valueGiven))
    else
      storeBare setting key fromCall unresolved start
      return separator

/-- Evaluates the value of a key, which begins at the cursor, and stores it; or keeps it as a
fragment or leaves it out, as the environment asks. -/
def keyValue (setting : Setting σ) : Nat → (name : String) → (start : Nat) → (forced : Bool) →
    EvalM σ Unit
  | 0, _, _, _ => scan setting (Scan.refuse .exhausted)
  | bound + 1, name, start, forced => do
    if (← get).cursor.rest.isEmpty then scan setting (Scan.refuseAt start .missingValue)
    within setting (.key name) start fun response => do
      match response with
      | none => put name (← expression setting bound forced false)
      | some response =>
        let (first, last) ← passExpression setting
        if response = .fragment then put name (.fragment (setting.source.fragment first last))

end

/-- A bound on the recursion that is never reached in a window of the given length. -/
def bound (length : Nat) : Nat :=
  5 * length + 5

/-- Evaluates the window as one expression, which blanks may surround. -/
def single (setting : Setting σ) (forced : Bool) : EvalM σ Value := do
  let length := (← get).cursor.rest.length
  let _ ← scan setting Scan.blanks
  if (← get).cursor.rest.isEmpty then scan setting (Scan.refuse .emptyText)
  let v ← expression setting (bound length) forced false
  let _ ← scan setting Scan.blanks
  unless (← get).cursor.rest.isEmpty do scan setting (Scan.refuse .extraText)
  return v

/-- Evaluates the window as the entries of a hash. -/
def topHash (setting : Setting σ) (forced : Bool) : EvalM σ Hash := do
  let start := (← get).cursor
  let (_, entries) ← buildHash do
    within setting .hash start.position fun _ =>
      entriesUpTo setting (bound start.rest.length) none forced start.position
  return entries

/-- Evaluates the window as the items of a sequence. -/
def topSequence (setting : Setting σ) (forced : Bool) : EvalM σ (List Value) := do
  let start := (← get).cursor
  within setting .sequence start.position fun _ =>
    itemsUpTo setting (bound start.rest.length) none forced start.position

end Evaluation

open Evaluation

variable {σ : Type}

/-- Evaluates a text as one expression. -/
def Source.evaluate (source : Source) (env : Environment σ) (forced : Bool) (inner : σ) :
    Except Error Value × σ :=
  run (single ⟨source, env⟩ forced) (.ofText source.text.toList) inner

/-- Evaluates a text as the entries of a hash, without braces. -/
def Source.evaluateHash (source : Source) (env : Environment σ) (forced : Bool) (inner : σ) :
    Except Error Hash × σ :=
  run (topHash ⟨source, env⟩ forced) (.ofText source.text.toList) inner

/-- Evaluates a text as the items of a sequence, without brackets. -/
def Source.evaluateSequence (source : Source) (env : Environment σ) (forced : Bool) (inner : σ) :
    Except Error (List Value) × σ :=
  run (topSequence ⟨source, env⟩ forced) (.ofText source.text.toList) inner

/-- The text that a fragment is a part of. -/
def Fragment.source (f : Fragment) : Source :=
  ⟨f.text, f.file⟩

/-- Evaluates a fragment as one expression. Places in errors are those of the whole text. -/
def Fragment.evaluate (f : Fragment) (env : Environment σ) (forced : Bool) (inner : σ) :
    Except Error Value × σ :=
  run (single ⟨f.source, env⟩ forced) (.ofWindow f.text.toList f.start f.stop) inner

end TextualData
