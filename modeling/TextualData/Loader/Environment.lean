import TextualData.Evaluation
import TextualData.Loader.Builtin
import TextualData.Loader.Variable

/-!
# The environment of loaders

`Loader.environment` lets the functions of a text read variables and load data. A file that is
loaded may call loaders in turn, in an environment of its own; the number of environments inside
one another is bounded.
-/

namespace TextualData
namespace Loader

/-- The state of the environment. -/
structure State where
  visibility : Visibility := {}
  reports : List LoadReport := []
deriving DecidableEq, Repr

/-- The loader that a function name stands for. Those that the application adds go first. -/
def ofName (setting : Setting) (name : String) : Except LoadFault Custom :=
  match setting.custom.get? name with
  | some loader => .ok loader
  | none => do
    let loader ← Builtin.ofName name
    return loader.load setting.files

/-- Runs the loader that a function call names. -/
def run (setting : Setting) (nested : Nested) (call : FunctionCall) : LoadM Value := do
  let loader ← LoadM.ofFault (ofName setting call.name)
  loader ⟨call.params, setting.config, setting.data, nested⟩

/-- The function that reads a variable. -/
def variableFunction : String := "get"

/-- Resolves a function call: the reading of a variable, or a loader. -/
def resolve (setting : Setting) (nested : Nested) (call : FunctionCall) (context : Context)
    (state : State) : Except Error Value × State :=
  if call.name = variableFunction then
    let hashes := state.visibility.hashes context.openHashes
    ((Variable.get hashes setting.data call.params).mapError .loading, state)
  else
    let outcome := run setting nested call
    (outcome.result, { state with reports := outcome.reports ++ state.reports })

/-- The environment whose loaders evaluate further texts in the given way. -/
def environmentWith (setting : Setting) (nested : Nested) : Environment State where
  call := resolve setting nested
  notify event context state :=
    (.ok none,
      { state with visibility := state.visibility.update event context.openHashes.length })

/-- The outcome of an evaluation that begins in a fresh state of the environment. -/
def fresh {α : Type} (evaluation : State → Except Error α × State) : LoadM α :=
  let (result, state) := evaluation {}
  ⟨result, state.reports⟩

/-- Evaluates further texts with the given number of environments inside one another. -/
def nested (setting : Setting) : Nat → Nested
  | 0 => .refusing
  | depth + 1 =>
    let env := environmentWith setting (nested setting depth)
    { hash := fun source => fresh (source.evaluateHash env false)
      sequence := fun source => fresh (source.evaluateSequence env false) }

/-- The environment whose loaders may call each other to the given depth. -/
def environment (setting : Setting) (depth : Nat) : Environment State :=
  environmentWith setting (nested setting depth)

/-- The depth of nested loading that applications allow. -/
def usualDepth : Nat := 1000

end Loader
end TextualData
