import TextualData.Environment.Traced
import TextualData.Proofs.Composition

/-!
# Environments that answer alike

An evaluation depends on its environment by the answers to callbacks only. So two environments that
give the same answers from related states lead to the same outcome, and to related states after
it: the primitives of `Composed` keep the relation, and with them every evaluation.
-/

namespace TextualData

/-- Two environments give the same answers in related states, and go to related states. -/
structure Environment.Simulates {σ σ' : Type} (R : σ → σ' → Prop) (env : Environment σ)
    (env' : Environment σ') : Prop where
  call : ∀ call context i i', R i i' →
    (env.call call context i).1 = (env'.call call context i').1 ∧
      R (env.call call context i).2 (env'.call call context i').2
  notify : ∀ event context i i', R i i' →
    (env.notify event context i).1 = (env'.notify event context i').1 ∧
      R (env.notify event context i).2 (env'.notify event context i').2

namespace Evaluation

variable {σ σ' α β : Type} {source : Source}

/-- What the environment sees at a place. -/
def Place.context (source : Source) (p : Place) : Context :=
  ⟨source, p.cursor.position, p.openHashes⟩

/-- A place with one more hash under construction. -/
def Place.withHash (p : Place) : Place :=
  ⟨p.cursor, [] :: p.openHashes⟩

/-- A place with one hash less under construction. -/
def Place.withoutHash (p : Place) : Place :=
  ⟨p.cursor, p.openHashes.tail⟩

/-- The error that an evaluation fails with when an event is answered with an error. -/
def reported (source : Source) (position : Nat) (e : Error) : Error :=
  if e.isLocated then e else .environment e (source.locate position)

namespace Outcome

/-- An answer to a callback at a place, with the error that stands for one. -/
def ofAnswer (p : Place) (report : Error → Error) : Except Error α → Outcome α
  | .ok a => .ok a p
  | .error e => .error (report e) p

/-- The outcome of a scope, from that of its body and the answer to its end. -/
def leave (source : Source) (answer : Except Error (Option Response)) : Outcome α → Outcome α
  | .ok a q =>
    match answer with
    | .ok _ => .ok a q
    | .error e => .error (reported source q.cursor.position e) q
  | .error e q => .error e q

/-- The outcome of building a hash, from that of its body. -/
def close : Outcome α → Outcome (α × Hash)
  | .ok a q => .ok (a, q.openHashes.headD []) q.withoutHash
  | .error e q => .error e q.withoutHash

/-- An outcome without its place. -/
def toExcept : Outcome α → Except Error α
  | .ok a _ => .ok a
  | .error e _ => .error e

@[simp] theorem place_leave (answer : Except Error (Option Response)) (o : Outcome α) :
    (o.leave source answer).place = o.place := by
  cases o with
  | ok a q => cases answer <;> rfl
  | error e q => rfl

@[simp] theorem place_close (o : Outcome α) : o.close.place = o.place.withoutHash := by
  cases o <;> rfl

/-- Outcomes and states of environments are told apart by results. -/
theorem result_inj {o o' : Outcome α} {i i' : σ} (h : o.result i = o'.result i') :
    o = o' ∧ i = i' := by
  cases o with
  | ok a p =>
    cases o' with
    | ok a' p' => cases p; cases p'; cases h; exact ⟨rfl, rfl⟩
    | error e' p' => cases h
  | error e p =>
    cases o' with
    | ok a' p' => cases h
    | error e' p' => cases p; cases p'; cases h; exact ⟨rfl, rfl⟩

end Outcome

theorem notify_state (env : Environment σ) (event : Event) (position : Nat) (p : Place) (i : σ) :
    notify ⟨source, env⟩ event position (p.state i) =
      (Outcome.ofAnswer p (reported source position)
        (env.notify event (p.context source) i).1).result
        (env.notify event (p.context source) i).2 := by
  rcases h : env.notify event (p.context source) i with ⟨e | response, j⟩ <;>
    simp only [notify, Place.state, context_cursor, report_cursor] <;>
    simp only [Place.context] at h <;> rw [h] <;> rfl

theorem resolve_state (env : Environment σ) (call : FunctionCall) (position : Nat) (p : Place)
    (i : σ) :
    resolve ⟨source, env⟩ call position (p.state i) =
      (Outcome.ofAnswer p (Error.call call.name (source.locate position))
        (env.call call (p.context source) i).1).result (env.call call (p.context source) i).2 := by
  rcases h : env.call call (p.context source) i with ⟨e | v, j⟩ <;>
    simp only [resolve, Place.state, context_cursor, report_cursor] <;>
    simp only [Place.context] at h <;> rw [h] <;> rfl

/-- A step that fails ends the run. -/
theorem bind_of_error {m : EvalM σ α} {f : α → EvalM σ β} {s : State σ} {e : Error} {q : Place}
    {j : σ} (h : m s = (Outcome.error e q).result j) :
    (m >>= f) s = (Outcome.error e q).result j := by
  simp only [Bind.bind, EStateM.bind, h, Outcome.result]

theorem bind_of_ok {m : EvalM σ α} {f : α → EvalM σ β} {s : State σ} {a : α} {q : Place} {j : σ}
    (h : m s = (Outcome.ok a q).result j) : (m >>= f) s = f a (q.state j) := by
  simp only [Bind.bind, EStateM.bind, h, Outcome.result]

section
variable {env : Environment σ} {scope : Scope} {start : Nat} {body : Option Response → EvalM σ α}
  {p : Place} {i j : σ}

/-- A scope that the environment does not accept. -/
theorem within_of_refused {e : Error}
    (h : env.notify (.enter scope) (p.context source) i = (.error e, j)) :
    within ⟨source, env⟩ scope start body (p.state i) =
      (Outcome.error (reported source start e) p).result j :=
  bind_of_error (by rw [notify_state, h]; rfl)

/-- A scope that the environment accepts, with the run of its body. -/
theorem within_of_accepted {response : Option Response} {o : Outcome α} {k : σ}
    (h : env.notify (.enter scope) (p.context source) i = (.ok response, j))
    (hbody : body response (p.state j) = o.result k) :
    within ⟨source, env⟩ scope start body (p.state i) =
      (o.leave source (env.notify (.leave scope) (o.place.context source) k).1).result
        (env.notify (.leave scope) (o.place.context source) k).2 := by
  have henter : notify ⟨source, env⟩ (.enter scope) start (p.state i) =
      (Outcome.ok response p).result j := by
    rw [notify_state, h]
    rfl
  refine (bind_of_ok henter).trans ?_
  simp only [hbody]
  cases o with
  | ok a q =>
    simp only [Outcome.result, Outcome.place, offset_cursor]
    rw [show (q.state k).cursor.position = q.cursor.position from rfl, notify_state]
    cases (env.notify (.leave scope) (q.context source) k).1 <;> rfl
  | error e q =>
    simp only [Outcome.result, Outcome.place, offset_cursor]
    rw [show (q.state k).cursor.position = q.cursor.position from rfl, notify_state]
    cases (env.notify (.leave scope) (q.context source) k).1 <;> rfl

end

theorem buildHash_state {m : EvalM σ α} {p : Place} {i j : σ} {o : Outcome α}
    (h : m (p.withHash.state i) = o.result j) :
    buildHash m (p.state i) = o.close.result j := by
  unfold buildHash
  rw [show m { p.state i with openHashes := [] :: (p.state i).openHashes } = o.result j from h]
  cases o <;> rfl

theorem run_of_result {m : EvalM σ α} {window : Cursor} {i j : σ} {o : Outcome α}
    (h : m ((Place.mk window []).state i) = o.result j) : run m window i = (o.toExcept, j) := by
  unfold run
  rw [show m ⟨window, [], i⟩ = o.result j from h]
  cases o <;> rfl

section
variable {R : σ → σ' → Prop} {env : Environment σ} {env' : Environment σ'}

/-- Environments that answer alike lead to the same outcome. -/
theorem Composed.simulates {braced : Bool} {own : Nat} {m : Computation α}
    (h : Composed source braced own m) (hsim : env.Simulates R env') :
    ∀ (p : Place) i i', R i i' → ∃ (o : Outcome α) (j : σ) (j' : σ'), R j j' ∧
      m σ env (p.state i) = o.result j ∧ m σ' env' (p.state i') = o.result j' := by
  induction h with
  | quiet h =>
    intro p i i' hR
    obtain ⟨o, -, -, hrun⟩ := h p
    exact ⟨o, i, i', hR, hrun σ env i, hrun σ' env' i'⟩
  | bind _ _ ihm ihf =>
    intro p i i' hR
    obtain ⟨o, j, j', hR, hm, hm'⟩ := ihm p i i' hR
    cases o with
    | error e q => exact ⟨.error e q, j, j', hR, bind_of_error hm, bind_of_error hm'⟩
    | ok a q =>
      obtain ⟨o, k, k', hR, hf, hf'⟩ := ihf a q j j' hR
      exact ⟨o, k, k', hR, (bind_of_ok hm).trans hf, (bind_of_ok hm').trans hf'⟩
  | resolve call position =>
    intro p i i' hR
    obtain ⟨hanswer, hR⟩ := hsim.call call (p.context source) i i' hR
    refine ⟨_, _, _, hR, resolve_state env call position p i, ?_⟩
    rw [hanswer]
    exact resolve_state env' call position p i'
  | @within _ _ _ scope start body _ _ _ ih =>
    intro p i i' hR
    obtain ⟨hanswer, hR⟩ := hsim.notify (.enter scope) (p.context source) i i' hR
    rcases henter : env.notify (.enter scope) (p.context source) i with ⟨e | response, j⟩
    · rcases henter' : env'.notify (.enter scope) (p.context source) i' with ⟨answer, j'⟩
      rw [henter, henter'] at hanswer hR
      subst hanswer
      exact ⟨_, j, j', hR, within_of_refused henter, within_of_refused henter'⟩
    · rcases henter' : env'.notify (.enter scope) (p.context source) i' with ⟨answer, j'⟩
      rw [henter, henter'] at hanswer hR
      subst hanswer
      obtain ⟨o, k, k', hR, hbody, hbody'⟩ := ih response p j j' hR
      obtain ⟨hanswer, hR⟩ := hsim.notify (.leave scope) (o.place.context source) k k' hR
      refine ⟨_, _, _, hR, within_of_accepted henter hbody, ?_⟩
      rw [hanswer]
      exact within_of_accepted henter' hbody'
  | buildHash _ ih =>
    intro p i i' hR
    obtain ⟨o, j, j', hR, hm, hm'⟩ := ih p.withHash i i' hR
    exact ⟨o.close, j, j', hR, buildHash_state hm, buildHash_state hm'⟩

end
end Evaluation
end TextualData
