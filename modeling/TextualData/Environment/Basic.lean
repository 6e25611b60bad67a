import TextualData.Cursor
import TextualData.Error.Basic
import TextualData.Value.Basic

/-!
# Environments

An `Environment` takes part in an evaluation: it resolves function calls, and it is told where
hashes, sequences, parameter lists and the values of keys begin and end. On entering a scope it
may ask that what follows be kept as a fragment or left out. It carries a state of its own from
one callback to the next.
-/

namespace TextualData

/-- A text to evaluate, with the file it comes from, if known. -/
structure Source where
  text : String
  file : Option String := none
deriving DecidableEq, Repr

/-- The place at a byte offset of the text. -/
def Source.locate (s : Source) (position : Nat) : Location :=
  ⟨s.text, position, s.file⟩

/-- The fragment between two byte offsets of the text. -/
def Source.fragment (s : Source) (start stop : Nat) : Fragment :=
  ⟨s.text, start, stop, s.file⟩

/-- The parts of a text that begin and end. -/
inductive Scope where
  | key (name : String)
  | params (function : String)
  | sequence
  | hash
deriving DecidableEq, Repr

/-- The name that goes with a scope. -/
def Scope.name? : Scope → Option String
  | key name => some name
  | params function => some function
  | _ => none

/-- What an environment is told. -/
inductive Event where
  | enter (scope : Scope)
  /-- A scope ends, or its evaluation failed. -/
  | leave (scope : Scope)
deriving DecidableEq, Repr

/-- The scope that an event is about. -/
def Event.scope : Event → Scope
  | enter scope => scope
  | leave scope => scope

/-- What an environment may ask for on entering a scope. -/
inductive Response where
  | fragment
  | skip
deriving DecidableEq, Repr

/-- What an environment can see of the evaluation. -/
structure Context where
  source : Source
  position : Nat
  /-- The hashes under construction, innermost first. -/
  openHashes : List Hash

/-- A partner of evaluations, with its state. A callback gives its result and the state after it,
also if it fails. -/
structure Environment (σ : Type) where
  /-- Resolves a function call. Giving the call itself back leaves it unresolved. -/
  call : FunctionCall → Context → σ → Except Error Value × σ
  notify : Event → Context → σ → Except Error (Option Response) × σ

namespace Environment

/-- The environment that leaves every call unresolved and asks for nothing. -/
def unresolving : Environment Unit where
  call call _ _ := (.ok call.toValue, ())
  notify _ _ _ := (.ok none, ())

end Environment
end TextualData
