import TextualData.Environment.Basic

/-!
# Records of callbacks

`Environment.traced` lets an environment keep a record of every callback: what was asked, where
the cursor stood, how many hashes were open, and what was answered.
-/

namespace TextualData

/-- A callback with its answer. -/
inductive Callback where
  | event (event : Event) (answer : Except Error (Option Response))
  | call (call : FunctionCall) (answer : Except Error Value)

/-- A callback with the state of the evaluation at that moment. -/
structure CallbackRecord where
  callback : Callback
  position : Nat
  /-- The number of hashes under construction. -/
  openHashes : Nat

namespace Environment

variable {σ : Type}

/-- The environment with records of all callbacks beside its state, the latest first. -/
def traced (env : Environment σ) : Environment (σ × List CallbackRecord) where
  call call context state :=
    let (answer, inner) := env.call call context state.1
    (answer, inner, ⟨.call call answer, context.position, context.openHashes.length⟩ :: state.2)
  notify event context state :=
    let (answer, inner) := env.notify event context state.1
    (answer, inner, ⟨.event event answer, context.position, context.openHashes.length⟩ :: state.2)

end Environment
end TextualData
