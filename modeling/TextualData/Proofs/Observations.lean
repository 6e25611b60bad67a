import TextualData.Proofs.Tasks

/-!
# Observations of an environment

An observation is a callback with what the environment saw, and with its own state at that moment.
The observations of an evaluation are the callbacks of its trace, and each state in them follows
from the one before by what the environment does.
-/

namespace TextualData

variable {σ : Type}

/-- A callback with what the environment saw and the state that it was in. -/
structure Observation (σ : Type) where
  callback : Callback
  context : Context
  before : σ

/-- What the record of the callback keeps. -/
def Observation.record (o : Observation σ) : CallbackRecord :=
  ⟨o.callback, o.context.position, o.context.openHashes.length⟩

namespace Environment

/-- The environment with observations of all callbacks beside its state, the latest first. -/
def observed (env : Environment σ) : Environment (σ × List (Observation σ)) where
  call call context state :=
    let (answer, inner) := env.call call context state.1
    (answer, inner, ⟨.call call answer, context, state.1⟩ :: state.2)
  notify event context state :=
    let (answer, inner) := env.notify event context state.1
    (answer, inner, ⟨.event event answer, context, state.1⟩ :: state.2)

/-- From a first state, the environment goes through these observations, the latest first, to a
state. -/
inductive Reaches (env : Environment σ) (first : σ) : List (Observation σ) → σ → Prop where
  | refl : Reaches env first [] first
  | call {past : List (Observation σ)} {s : σ} (h : Reaches env first past s)
      (call : FunctionCall) (context : Context) :
      Reaches env first (⟨.call call (env.call call context s).1, context, s⟩ :: past)
        (env.call call context s).2
  | event {past : List (Observation σ)} {s : σ} (h : Reaches env first past s)
      (event : Event) (context : Context) :
      Reaches env first (⟨.event event (env.notify event context s).1, context, s⟩ :: past)
        (env.notify event context s).2

section
variable {env : Environment σ} {first s : σ} {past : List (Observation σ)} {o : Observation σ}

theorem Reaches.exists_upTo {later : List (Observation σ)}
    (h : env.Reaches first (later ++ past) s) : ∃ t, env.Reaches first past t := by
  induction later generalizing s with
  | nil => exact ⟨s, h⟩
  | cons _ later ih =>
    cases h with
    | call h => exact ih h
    | event h => exact ih h

theorem Reaches.before (h : env.Reaches first (o :: past) s) :
    env.Reaches first past o.before := by
  cases h with
  | call h => exact h
  | event h => exact h

theorem Reaches.answer (h : env.Reaches first (o :: past) s) {call : FunctionCall}
    {answer : Except Error Value} (ho : o.callback = .call call answer) :
    answer = (env.call call o.context o.before).1 := by
  cases h with
  | call _ _ _ =>
    cases ho
    rfl
  | event _ _ _ => cases ho

end

end Environment

namespace Task

/-- The observations that an environment makes while it evaluates a task, in order. -/
def observations (task : Task) (env : Environment σ) (inner : σ) : List (Observation σ) :=
  (task.evaluate env.observed (inner, [])).2.2.reverse

theorem map_record_observations (task : Task) (env : Environment σ) (inner : σ) :
    (task.observations env inner).map Observation.record = task.callbacks env inner := by
  have hsim : env.observed.Simulates
      (fun s s' => s.1 = s'.1 ∧ s.2.map Observation.record = s'.2) env.traced := by
    constructor <;> rintro _ _ ⟨s, past⟩ ⟨_, _⟩ ⟨rfl, rfl⟩ <;> exact ⟨rfl, rfl, rfl⟩
  obtain ⟨-, -, hlog⟩ := task.evaluate_simulates hsim (inner, []) (inner, []) ⟨rfl, rfl⟩
  rw [observations, List.map_reverse, hlog]
  rfl

theorem reaches_observations (task : Task) (env : Environment σ) (inner : σ) :
    env.Reaches inner (task.observations env inner).reverse (task.evaluate env inner).2 := by
  have hsim : env.Simulates (fun s s' => s'.1 = s ∧ env.Reaches inner s'.2 s) env.observed := by
    constructor
    · rintro call context _ ⟨s, past⟩ ⟨rfl, h⟩
      exact ⟨rfl, rfl, h.call call context⟩
    · rintro event context _ ⟨s, past⟩ ⟨rfl, h⟩
      exact ⟨rfl, rfl, h.event event context⟩
  obtain ⟨-, -, h⟩ := task.evaluate_simulates hsim inner (inner, []) ⟨rfl, .refl⟩
  rwa [observations, List.reverse_reverse]

end Task
end TextualData
