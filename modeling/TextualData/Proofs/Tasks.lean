import TextualData.Mode
import TextualData.Proofs.Bracketing

/-!
# Tasks

A `Task` is what an evaluation is given besides its environment: a text with the mode to read it
in, or a fragment. What holds of computations that are composed holds of all tasks.
-/

namespace TextualData

open Evaluation

/-- A text or a fragment to evaluate. -/
inductive Task where
  | text (source : Source) (mode : Mode) (forced : Bool)
  | fragment (f : Fragment) (forced : Bool)

namespace Task

variable {σ σ' : Type}

/-- The text that places in errors refer to. -/
def source : Task → Source
  | text source _ _ => source
  | fragment f _ => f.source

/-- Evaluates a task with an environment and its state. -/
def evaluate (task : Task) (env : Environment σ) (inner : σ) : Except Error Value × σ :=
  match task with
  | text source mode forced => source.evaluateAs mode env forced inner
  | fragment f forced => f.evaluate env forced inner

/-- The callbacks that the evaluation of a task makes, in order. -/
def callbacks (task : Task) (env : Environment σ) (inner : σ) : List CallbackRecord :=
  (task.evaluate env.traced (inner, [])).2.2.reverse

/-- Whether all hashes of the task stand in braces. -/
def isBraced : Task → Bool
  | text _ .hash _ => false
  | _ => true

/-- The window that the task is to read. -/
def window : Task → Cursor
  | text source _ _ => .ofText source.text.toList
  | fragment f _ => .ofWindow f.text.toList f.start f.stop

/-- What the evaluation of a task computes. -/
def program : Task → Evaluation.Computation Value
  | text source .hash forced => fun _ env =>
    topHash ⟨source, env⟩ forced >>= fun entries => pure (.hash entries)
  | text source .sequence forced => fun _ env =>
    topSequence ⟨source, env⟩ forced >>= fun items => pure (.sequence items)
  | text source .expression forced => fun _ env => single ⟨source, env⟩ forced
  | fragment f forced => fun _ env => single ⟨f.source, env⟩ forced

theorem composed (task : Task) : Composed task.source task.isBraced 0 task.program := by
  cases task with
  | text source mode forced =>
    cases mode with
    | hash => exact .bind (topHash_composed source forced) fun _ => .quiet (.pure _)
    | sequence => exact .bind (topSequence_composed source forced) fun _ => .quiet (.pure _)
    | expression => exact single_composed source forced
  | fragment f forced => exact single_composed f.source forced

theorem run_bind_pure {α β : Type} (m : EvalM σ α) (f : α → β) (window : Cursor) (inner : σ) :
    run (m >>= fun a => pure (f a)) window inner =
      ((run m window inner).1.map f, (run m window inner).2) := by
  simp only [run, Bind.bind, EStateM.bind]
  cases m ⟨window, [], inner⟩ <;> rfl

theorem evaluate_eq_run (task : Task) (env : Environment σ) (inner : σ) :
    task.evaluate env inner = run (task.program σ env) task.window inner := by
  cases task with
  | text source mode forced =>
    cases mode with
    | hash => exact (run_bind_pure _ Value.hash _ inner).symm
    | sequence => exact (run_bind_pure _ Value.sequence _ inner).symm
    | expression => rfl
  | fragment f forced => rfl

/-- Environments that answer alike give the same result. -/
theorem evaluate_simulates {R : σ → σ' → Prop} {env : Environment σ} {env' : Environment σ'}
    (hsim : env.Simulates R env') (task : Task) (i : σ) (i' : σ') (hR : R i i') :
    (task.evaluate env i).1 = (task.evaluate env' i').1 ∧
      R (task.evaluate env i).2 (task.evaluate env' i').2 := by
  obtain ⟨o, j, j', hR, hrun, hrun'⟩ :=
    task.composed.simulates hsim ⟨task.window, []⟩ i i' hR
  rw [evaluate_eq_run, evaluate_eq_run, run_of_result hrun, run_of_result hrun']
  exact ⟨rfl, hR⟩

theorem exists_traced (task : Task) (env : Environment σ) (inner : σ) :
    ∃ o, (task.evaluate env inner).1 = o.toExcept ∧
      Traced task.program ⟨task.window, []⟩ (task.callbacks env inner) o := by
  obtain ⟨o, hresult, htrace⟩ := task.composed.traced_run env task.window inner
  rw [← evaluate_eq_run] at hresult htrace
  -- The records change nothing: without them, the environment answers alike.
  have hsim : env.Simulates (fun s s' => s'.1 = s) env.traced := by
    constructor <;> rintro _ _ _ s rfl <;> exact ⟨rfl, rfl⟩
  exact ⟨o, (task.evaluate_simulates hsim inner (inner, []) rfl).1.trans hresult, htrace⟩

theorem callbacks_bracketed (task : Task) (env : Environment σ) (inner : σ) :
    Bracketed task.isBraced 0 (task.callbacks env inner) := by
  obtain ⟨o, -, htrace⟩ := task.exists_traced env inner
  exact (task.composed.bracketed rfl htrace).1

end Task
end TextualData
