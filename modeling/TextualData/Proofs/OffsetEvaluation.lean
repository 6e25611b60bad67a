import TextualData.Proofs.OffsetExtent
import TextualData.Proofs.WindowBounds

/-!
# Evaluation by byte offsets

An evaluation that knows of its place nothing but the byte offset, as `OffsetScan` does. All its
looks and slices are checked; where a check fails, it fails without an error. The environment is
told the same in it as in any evaluation: the text, the byte offset and the open hashes.
-/

namespace TextualData
namespace OffsetEvaluation

open Evaluation (EvalAt Places StateAt buildHash keyName notify position put resolve resolveKey
  storeBare within)
open Offsets

variable {σ α : Type}

/-- What does not change during an evaluation. -/
structure Setting (σ : Type) extends Evaluation.Setting σ where
  /-- The byte offset where the window ends. -/
  stop : Nat

def Setting.view (setting : Setting σ) : View :=
  ⟨setting.source.text.toList, setting.stop⟩

/-- The places are the byte offsets themselves. A failure without an error means that the evaluation
has read where it must not. -/
instance : Places Nat (Option Error) where
  offset := id
  report := some

/-- What changes while an offset moves through the text. -/
abbrev State (σ : Type) := StateAt Nat σ

/-- An evaluation along an offset. -/
abbrev EvalM (σ α : Type) := EvalAt (Option Error) Nat σ α

/-- Moves on by a scan; a refusal becomes an error with its place in the text. -/
def scan (setting : Setting σ) (m : OffsetScan α) : EvalM σ α := fun s =>
  match m s.cursor with
  | .ok a offset => .ok a { s with cursor := offset }
  | .error fault offset =>
    .error (fault.map fun f => .malformed f.cause (setting.source.locate f.position))
      { s with cursor := offset }

/-- Goes to an offset. -/
def goTo (offset : Nat) : EvalM σ Unit :=
  modify fun s => { s with cursor := offset }

/-- Moves on over the expression at the offset and gives the byte offsets of its ends. -/
def passExpression (setting : Setting σ) : EvalM σ (Nat × Nat) := do
  let start ← position
  scan setting (extent setting.view)
  return (start, ← position)

mutual

/-- Evaluates the expression at the offset. The number bounds the recursion. -/
def expression (setting : Setting σ) : Nat → (forced inKey : Bool) → EvalM σ Value
  | 0, _, _ => scan setting (refuse .exhausted)
  | bound + 1, forced, inKey => do
    match ← scan setting (peek setting.view) with
    | none => scan setting (refuse .unexpectedEnd)
    | some x =>
      if x = '{' then hash setting bound forced
      else if x = '[' then sequence setting bound forced
      else if Literal.isQuotation x then
        return .string (String.ofList (← scan setting (quoted setting.view x)))
      else
        match ← scan setting (do rawQuotation? setting.view (← get)) with
        | some quotation =>
          return .string (String.ofList (← scan setting (raw setting.view quotation)))
        | none => unquoted setting bound forced inKey

/-- Evaluates the hash in braces at the offset. -/
def hash (setting : Setting σ) : Nat → (forced : Bool) → EvalM σ Value
  | 0, _ => scan setting (refuse .exhausted)
  | bound + 1, forced => do
    let start ← position
    scan setting (advance 1)
    let (kept, entries) ← buildHash do
      within setting.toSetting .hash (← position) fun response => do
        if response.isNone then
          entriesUpTo setting bound (some '}') forced
          return none
        else
          goTo start
          let (first, last) ← passExpression setting
          modify fun s => { s with cursor := s.cursor - 1 }
          return some (setting.source.fragment first last)
    scan setting (advance 1)
    return kept.elim (.hash entries) .fragment

/-- Evaluates the sequence in brackets at the offset. -/
def sequence (setting : Setting σ) : Nat → (forced : Bool) → EvalM σ Value
  | 0, _ => scan setting (refuse .exhausted)
  | bound + 1, forced => do
    scan setting (advance 1)
    let items ← within setting.toSetting .sequence (← position) fun _ =>
      itemsUpTo setting bound (some ']') forced
    scan setting (advance 1)
    return .sequence items

/-- Evaluates the token at the offset, or the call that it names. -/
def unquoted (setting : Setting σ) : Nat → (forced inKey : Bool) → EvalM σ Value
  | 0, _, _ => scan setting (refuse .exhausted)
  | bound + 1, forced, inKey => do
    let start ← position
    let token ← scan setting (token setting.view inKey)
    let stop ← position
    if stop = start then scan setting (refuse .unexpectedCharacter)
    let _ ← scan setting (blanks setting.view)
    if (← scan setting (peek setting.view)) = some '(' then
      scan setting (advance 1)
      let name := String.ofList token
      let params ← within setting.toSetting (.params name) start fun _ =>
        itemsUpTo setting bound (some ')') forced
      scan setting (advance 1)
      if inKey then return .call name params else resolve setting.toSetting ⟨name, params⟩ start
    else
      goTo stop
      return if forced || inKey then .string (String.ofList token) else Token.classify token

/-- Evaluates items up to the closing bracket, whose opening one is just before the offset, or to
the end of the text. -/
def itemsUpTo (setting : Setting σ) :
    Nat → (closing : Option Char) → (forced : Bool) → EvalM σ (List Value)
  | 0, _, _ => scan setting (refuse .exhausted)
  | bound + 1, closing, forced => do
    let opening := (← position) - 1
    let _ ← scan setting (blanks setting.view)
    items setting bound closing forced opening

/-- Evaluates the items from the one at the offset. -/
def items (setting : Setting σ) :
    Nat → (closing : Option Char) → (forced : Bool) → (opening : Nat) → EvalM σ (List Value)
  | 0, _, _, _ => scan setting (refuse .exhausted)
  | bound + 1, closing, forced, opening => do
    match ← scan setting (peek setting.view), closing with
    | none, none => return []
    | none, some closing => scan setting (blame opening (.unclosedList closing))
    | some x, _ =>
      if closing = some x then return []
      else if x = ',' then scan setting (refuse .missingItem)
      else
        let v ← expression setting bound forced false
        let separator ← scan setting (separator setting.view closing (some .inList))
        if separator = .closing then return [v]
        else return v :: (← items setting bound closing forced opening)

/-- Evaluates entries into the innermost hash, up to the closing bracket, whose opening one is just
before the offset, or to the end of the text. -/
def entriesUpTo (setting : Setting σ) :
    Nat → (closing : Option Char) → (forced : Bool) → EvalM σ Unit
  | 0, _, _ => scan setting (refuse .exhausted)
  | bound + 1, closing, forced => do
    let opening := (← position) - 1
    let _ ← scan setting (blanks setting.view)
    entries setting bound closing forced opening

/-- Evaluates the entries from the one at the offset. -/
def entries (setting : Setting σ) :
    Nat → (closing : Option Char) → (forced : Bool) → (opening : Nat) → EvalM σ Unit
  | 0, _, _, _ => scan setting (refuse .exhausted)
  | bound + 1, closing, forced, opening => do
    match ← scan setting (peek setting.view), closing with
    | none, none => return
    | none, some closing => scan setting (blame opening (.unclosedHash closing))
    | some x, _ =>
      if closing = some x then return
      else if x = ',' then scan setting (refuse .missingEntry)
      else
        let separator ← entry setting bound closing forced
        if separator = .closing then return
        else entries setting bound closing forced opening

/-- Evaluates the entry at the offset and what separates it from the next. -/
def entry (setting : Setting σ) : Nat → (closing : Option Char) → (forced : Bool) →
    EvalM σ Separator
  | 0, _, _ => scan setting (refuse .exhausted)
  | bound + 1, closing, forced => do
    let start ← position
    let key ← expression setting bound false true
    let (key, fromCall, unresolved) ← resolveKey setting.toSetting key start
    let separator ← scan setting (separator setting.view closing none)
    if separator = .colon then
      let name ← keyName setting.toSetting key unresolved start
      keyValue setting bound name start forced
      scan setting (Offsets.separator setting.view closing (some .valueGiven))
    else
      storeBare setting.toSetting key fromCall unresolved start
      return separator

/-- Evaluates the value of a key, which begins at the offset, and stores it; or keeps it as a
fragment or leaves it out. -/
def keyValue (setting : Setting σ) : Nat → (name : String) → (start : Nat) → (forced : Bool) →
    EvalM σ Unit
  | 0, _, _, _ => scan setting (refuse .exhausted)
  | bound + 1, name, start, forced => do
    if (← position) = setting.stop then scan setting (blame start .missingValue)
    within setting.toSetting (.key name) start fun response => do
      match response with
      | none => put name (← expression setting bound forced false)
      | some response =>
        let (first, last) ← passExpression setting
        if response = .fragment then put name (.fragment (setting.source.fragment first last))

end

/-- The characters from the offset to the end of the window. -/
def rest (setting : Setting σ) : EvalM σ (List Char) := do
  scan setting (slice setting.view (← position) setting.stop)

/-- Evaluates the window as one expression, which blanks may surround. -/
def single (setting : Setting σ) (forced : Bool) : EvalM σ Value := do
  let length := (← rest setting).length
  let _ ← scan setting (blanks setting.view)
  if (← position) = setting.stop then scan setting (refuse .emptyText)
  let v ← expression setting (Evaluation.bound length) forced false
  let _ ← scan setting (blanks setting.view)
  if (← position) < setting.stop then scan setting (refuse .extraText)
  return v

/-- Evaluates the window as the entries of a hash. -/
def topHash (setting : Setting σ) (forced : Bool) : EvalM σ Hash := do
  let length := (← rest setting).length
  let (_, entries) ← buildHash do
    within setting.toSetting .hash (← position) fun _ =>
      entriesUpTo setting (Evaluation.bound length) none forced
  return entries

/-- Evaluates the window as the items of a sequence. -/
def topSequence (setting : Setting σ) (forced : Bool) : EvalM σ (List Value) := do
  let length := (← rest setting).length
  within setting.toSetting .sequence (← position) fun _ =>
    itemsUpTo setting (Evaluation.bound length) none forced

end OffsetEvaluation

open OffsetEvaluation

variable {σ : Type}

/-- What the evaluation of a task by offsets computes. -/
def Task.programByOffsets (task : Task) (env : Environment σ) : OffsetEvaluation.EvalM σ Value :=
  match task with
  | text source .hash forced => do return .hash (← topHash ⟨⟨source, env⟩, task.stop⟩ forced)
  | text source .sequence forced => do
    return .sequence (← topSequence ⟨⟨source, env⟩, task.stop⟩ forced)
  | text source .expression forced => single ⟨⟨source, env⟩, task.stop⟩ forced
  | fragment f forced => single ⟨⟨f.source, env⟩, task.stop⟩ forced

/-- Evaluates a task by offsets. A failure without an error means that the evaluation has read
where it must not. -/
def Task.evaluateByOffsets (task : Task) (env : Environment σ) (inner : σ) :
    Except (Option Error) Value × σ :=
  Evaluation.run (task.programByOffsets env) task.start inner

end TextualData
