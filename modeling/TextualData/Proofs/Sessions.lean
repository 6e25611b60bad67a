import TextualData.Proofs.LexicalScope

/-!
# Evaluations one after another

The environment of loaders can be used again, also after an evaluation that failed: each leaves it
with the visibility that it found, and what was reported earlier has no part in a result. So in a
row of evaluations each gives the result that it gives in a fresh environment.
-/

namespace TextualData

variable {σ : Type}

/-- Evaluates tasks one after another in one environment. -/
def Task.session (env : Environment σ) : List Task → σ → List (Except Error Value) × σ
  | [], s => ([], s)
  | task :: tasks, s =>
    let (result, s) := task.evaluate env s
    let (results, s) := session env tasks s
    (result :: results, s)

/-- Bracketed callbacks that are passive leave the visibility as it was. -/
theorem Bracketed.after_eq {braced : Bool} {hashes : Nat} {log : List CallbackRecord}
    (h : Bracketed braced hashes log) (hpassive : ∀ r ∈ log, r.callback.IsPassive)
    (v : Visibility) : v.after log = v := by
  induction h generalizing v with
  | nil => rfl
  | call _ ih => exact ih (fun r hr => hpassive r (.tail _ hr)) v
  | failed _ _ =>
    -- The environment accepts all beginnings.
    exact nomatch (List.forall_mem_cons.1 hpassive).1
  | scope _ _ _ ihInside ihLater =>
    rw [List.forall_mem_cons, List.forall_mem_append, List.forall_mem_cons] at hpassive
    obtain ⟨-, hinside, -, hlater⟩ := hpassive
    rw [Visibility.after, List.foldl_cons, List.foldl_append, List.foldl_cons]
    show Visibility.after (.follow (.after (.follow v _) _) _) _ = v
    rw [ihInside hinside, ihLater hlater]
    exact Visibility.update_leave v _ _ _

namespace Loader

variable {setting : Setting} {nested : Nested}

/-- An evaluation leaves the visibility as it was, whether it gives a value or fails. -/
theorem visibility_evaluate (task : Task) (state : State) :
    (task.evaluate (environmentWith setting nested) state).2.visibility = state.visibility := by
  obtain ⟨hvisibility, hpassive⟩ :=
    visibility_of_reaches (task.reaches_observations (environmentWith setting nested) state)
  rw [hvisibility, List.reverse_reverse, task.map_record_observations]
  refine (task.callbacks_bracketed _ _).after_eq (fun r hr => ?_) _
  rw [← task.map_record_observations] at hr
  obtain ⟨o, ho, rfl⟩ := List.mem_map.1 hr
  exact hpassive o (List.mem_reverse.2 ho)

/-- The environment answers by its visibility, whatever was reported. -/
theorem simulates_of_visibility :
    (environmentWith setting nested).Simulates (fun s s' => s.visibility = s'.visibility)
      (environmentWith setting nested) := by
  constructor
  · rintro call context ⟨_, reports⟩ ⟨visibility, reports'⟩ rfl
    by_cases hget : call.name = variableFunction
    · simp [environmentWith, resolve, hget]
    · simp [environmentWith, resolve, hget]
  · rintro event context ⟨_, reports⟩ ⟨visibility, reports'⟩ rfl
    exact ⟨rfl, rfl⟩

/-- An evaluation gives the environment back as it was, and in a row of evaluations each gives the
result that it gives in a fresh environment. -/
theorem session_as_fresh (setting : Setting) (nested : Nested) :
    (∀ (task : Task) (state : State),
      (task.evaluate (environmentWith setting nested) state).2.visibility = state.visibility) ∧
    ∀ (tasks : List Task) (reports : List LoadReport),
      (Task.session (environmentWith setting nested) tasks ⟨{}, reports⟩).1 =
        tasks.map fun task => (task.evaluate (environmentWith setting nested) {}).1 := by
  refine ⟨visibility_evaluate, fun tasks => ?_⟩
  induction tasks with
  | nil => exact fun _ => rfl
  | cons task tasks ih =>
    intro reports
    have hresult : (task.evaluate (environmentWith setting nested) ⟨{}, reports⟩).1 =
        (task.evaluate (environmentWith setting nested) {}).1 :=
      (task.evaluate_simulates simulates_of_visibility ⟨{}, reports⟩ {} rfl).1
    have hvisibility :
        (task.evaluate (environmentWith setting nested) ⟨{}, reports⟩).2.visibility = {} :=
      visibility_evaluate task _
    rcases heval : task.evaluate (environmentWith setting nested) ⟨{}, reports⟩ with
      ⟨result, visibility, reports'⟩
    rw [heval] at hresult hvisibility
    obtain rfl : visibility = {} := hvisibility
    simp only [Task.session, heval, List.map_cons, ih reports', ← hresult]

end Loader
end TextualData
