import TextualData.Evaluation

/-!
# Modes of evaluation

A `Mode` says how the top level of a text is read. `Source.evaluateAs` gives the result of each
mode as one value.
-/

namespace TextualData

/-- How the top level of a text is read. -/
inductive Mode where
  /-- As entries of a hash, without braces. -/
  | hash
  /-- As items of a sequence, without brackets. -/
  | sequence
  | expression
deriving DecidableEq, Repr

/-- The name of a mode in a report. -/
def Mode.name : Mode → String
  | .hash => "Hash"
  | .sequence => "Sequence"
  | .expression => "Expression"

/-- The word for a mode on the command line. -/
def Mode.word : Mode → String
  | .hash => "hash"
  | .sequence => "sequence"
  | .expression => "expression"

/-- Evaluates a text in a mode. -/
def Source.evaluateAs {σ : Type} (source : Source) (mode : Mode) (env : Environment σ)
    (forced : Bool) (inner : σ) : Except Error Value × σ :=
  match mode with
  | .hash =>
    let (result, inner) := source.evaluateHash env forced inner
    (result.map Value.hash, inner)
  | .sequence =>
    let (result, inner) := source.evaluateSequence env forced inner
    (result.map Value.sequence, inner)
  | .expression => source.evaluate env forced inner

end TextualData
