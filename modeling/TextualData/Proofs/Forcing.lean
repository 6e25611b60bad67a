import TextualData.Proofs.ComparedRuns
import TextualData.Proofs.Tasks

/-!
# Forcing tokens to be strings

Whether tokens are forced to be strings changes neither what is accepted nor the form of what is
denoted: without an environment, the two evaluations of a task fail with the same error, or give
values that differ only where the one has a token as a string and the other has what the token
means.
-/

namespace TextualData

/-- The values differ at most in tokens, which are strings in the first one and classified in the
second one. -/
inductive Value.Reclassified : Value → Value → Prop where
  | same (v : Value) : Reclassified v v
  | token (l : List Char) : Reclassified (.string (String.ofList l)) (Token.classify l)
  | sequence {vs ws : List Value} (items : List.Forall₂ Reclassified vs ws) :
      Reclassified (.sequence vs) (.sequence ws)
  /-- The keys are the same, in the same order. -/
  | hash {es es' : Hash} (keys : es.keys = es'.keys)
      (values : List.Forall₂ Reclassified (es.map Prod.snd) (es'.map Prod.snd)) :
      Reclassified (.hash es) (.hash es')
  | call {name : String} {vs ws : List Value} (params : List.Forall₂ Reclassified vs ws) :
      Reclassified (.call name vs) (.call name ws)

/-- Hashes that are alike have the same keys, and values that stand in the relation. -/
theorem Entries.Alike.keys_eq_and_values {V : Value → Value → Prop} {es es' : Hash}
    (h : Alike V es es') :
    es.keys = es'.keys ∧ List.Forall₂ V (es.map Prod.snd) (es'.map Prod.snd) := by
  induction h with
  | nil => exact ⟨rfl, .nil⟩
  | cons he _ ih => exact ⟨List.cons_eq_cons.2 ⟨he.1, ih.1⟩, .cons he.2 ih.2⟩

theorem Value.Congruence.reclassified : Congruence Reclassified true false where
  refl := .same
  token := .token
  sequence := .sequence
  hash h := .hash h.keys_eq_and_values.1 h.keys_eq_and_values.2
  call := .call

namespace Task

open Evaluation

/-- The task with its tokens forced to be strings, or not. -/
def withForced (forced : Bool) : Task → Task
  | text source mode _ => text source mode forced
  | fragment f _ => fragment f forced

/-- The two evaluations of a task go the same way. -/
theorem program_alike (task : Task) :
    Comparison.Alike ⟨task.source, task.source, [], rfl⟩ (fun _ _ => True)
      ((task.withForced true).program Unit .unresolving)
      ((task.withForced false).program Unit .unresolving) Value.Reclassified := by
  cases task with
  | text source mode forced =>
    cases mode with
    | hash =>
      exact .bind (Comparison.topHash_alike .reclassified) fun _ _ h =>
        .pure (Value.Congruence.reclassified.hash h)
    | sequence =>
      exact .bind (Comparison.topSequence_alike .reclassified) fun _ _ h => .pure (.sequence h)
    | expression => exact Comparison.single_alike .reclassified
  | fragment f forced => exact Comparison.single_alike .reclassified

/-- Forced evaluation succeeds when evaluation does, and fails with the same error when it fails;
the values differ only in the classification of tokens. -/
theorem forcing_reclassifies (task : Task) :
    match ((task.withForced true).evaluate .unresolving ()).1,
      ((task.withForced false).evaluate .unresolving ()).1 with
    | .ok v, .ok w => v.Reclassified w
    | .error e, .error e' => e = e'
    | _, _ => False := by
  have hwindow (forced : Bool) : (task.withForced forced).window = task.window := by
    cases task <;> rfl
  have h := task.program_alike.run task.window
  have hnone : task.window.behind [] = task.window := by simp [Cursor.behind]
  rw [hnone] at h
  rw [evaluate_eq_run, evaluate_eq_run, hwindow, hwindow]
  generalize (run ((task.withForced true).program Unit .unresolving) task.window ()).1 = r,
    (run ((task.withForced false).program Unit .unresolving) task.window ()).1 = r' at h
  cases h with
  | ok result => exact result
  | error blame => cases blame <;> rfl

end Task
end TextualData
