import TextualData.Environment.Basic
import TextualData.Evaluation

/-!
# Scripted environments

A `Script` says what to do with each function by name, and answers events by rules of which the
first that applies wins. Its environment has no state.
-/

namespace TextualData

/-- The kinds of scopes. -/
inductive Scope.Kind where
  | key
  | params
  | sequence
  | hash
deriving DecidableEq, Repr

/-- The kind of a scope. -/
def Scope.kind : Scope → Scope.Kind
  | key _ => .key
  | params _ => .params
  | sequence => .sequence
  | hash => .hash

namespace Script

/-- A failure that a script asks for. -/
inductive Failure where
  | loading (message : String)
  | encoding (name : String)
  /-- A text of its own is evaluated, and fails. -/
  | evaluating (text : String)
deriving DecidableEq, Repr

/-- The file name given to texts that a script evaluates. -/
def innerFile : String := "inner.tdd"

/-- The error that a failure stands for. -/
def Failure.error : Failure → Error
  | loading message => .loading (.custom message)
  | encoding name => .encoding name
  | evaluating text =>
    match (Source.evaluate ⟨text, some innerFile⟩ .unresolving false ()).1 with
    | .error e => e
    | .ok _ => .loading (.custom text)

/-- What to do with a call of a function. -/
inductive Action where
  | params
  /-- Give the first parameter, or false if there is none. -/
  | first
  | name
  /-- Give copies of the open hashes, outermost first. -/
  | openHashes
  /-- Give the offset of the cursor, the size of the text and the name of the file. -/
  | place
  | value (v : Value)
  /-- Give an unresolved call of another function with the same parameters. -/
  | rename (function : String)
  | fail (failure : Failure)

/-- The result of an action on a call. -/
def Action.perform (action : Action) (call : FunctionCall) (context : Context) :
    Except Error Value :=
  match action with
  | params => .ok (.sequence call.params)
  | first => .ok (call.params.headD (.boolean false))
  | name => .ok (.string call.name)
  | openHashes => .ok (.sequence (context.openHashes.reverse.map Value.hash))
  | place => .ok (.sequence [.integer (Int64.ofNat context.position),
      .integer (Int64.ofNat context.source.text.utf8ByteSize),
      .string (context.source.file.getD "-")])
  | value v => .ok v
  | rename function => .ok (.call function call.params)
  | fail failure => .error failure.error

/-- A rule for events: what it applies to, and the answer it gives. -/
structure Rule where
  /-- Whether the rule is for ends of scopes. -/
  leaving : Bool
  kind : Scope.Kind
  /-- The name of the scope, if it matters. -/
  name? : Option String
  /-- An offset that the cursor has to be beyond, if it matters. -/
  after? : Option Nat
  answer : Except Failure (Option Response)

/-- Whether a rule applies to an event. -/
def Rule.applies (rule : Rule) (event : Event) (context : Context) : Bool :=
  (match event with
    | .enter scope => !rule.leaving && scope.kind == rule.kind
    | .leave scope => rule.leaving && scope.kind == rule.kind) &&
  (rule.name?.isNone || rule.name? == event.scope.name?) &&
  (match rule.after? with
    | some offset => offset < context.position
    | none => true)

end Script

/-- What to do with functions, and how to answer events. -/
structure Script where
  functions : Entries Script.Action
  /-- The rules for events, the first that applies first. -/
  rules : List Script.Rule

/-- The environment that follows a script. A function without an action is left unresolved. -/
def Script.environment (script : Script) : Environment Unit where
  call call context _ :=
    match script.functions.get? call.name with
    | some action => (action.perform call context, ())
    | none => (.ok call.toValue, ())
  notify event context _ :=
    match script.rules.find? (·.applies event context) with
    | some rule => (rule.answer.mapError Script.Failure.error, ())
    | none => (.ok none, ())

end TextualData
