import TextualData.Proofs.Simulation

/-!
# Traces of evaluations

A trace of a computation is the callbacks that it makes in some environment, with the outcome that
it comes to. Each primitive of `Composed` has a lemma that takes its traces apart.
-/

namespace TextualData
namespace Evaluation

variable {σ α β : Type} {source : Source} {braced : Bool} {own : Nat} {p : Place}
  {log : List CallbackRecord}

/-- The record of a callback that is made at a place. -/
def Place.record (p : Place) (callback : Callback) : CallbackRecord :=
  ⟨callback, p.cursor.position, p.openHashes.length⟩

@[simp] theorem Place.record_inj {callback callback' : Callback} :
    p.record callback = p.record callback' ↔ callback = callback' := by
  simp [Place.record]

/-- From a place, and in some environment, a computation makes these callbacks and comes to this
outcome. -/
def Traced (m : Computation α) (p : Place) (log : List CallbackRecord) (o : Outcome α) : Prop :=
  ∃ (σ : Type) (env : Environment σ) (inner inner' : σ) (past : List CallbackRecord),
    m _ env.traced (p.state (inner, past)) = o.result (inner', log.reverse ++ past)

theorem eq_of_recorded {k l t : List CallbackRecord}
    (h : k.reverse ++ t = l.reverse ++ t) : k = l :=
  List.reverse_inj.1 (List.append_cancel_right h)

/-- The callbacks are put before those that were recorded earlier. -/
theorem Composed.run_traced {m : Computation α} (h : Composed source braced own m)
    (env : Environment σ) (p : Place) (inner : σ) (past : List CallbackRecord) :
    ∃ (o : Outcome α) (inner' : σ) (log : List CallbackRecord),
      m _ env.traced (p.state (inner, past)) = o.result (inner', log.reverse ++ past) := by
  -- A computation keeps each relation of an environment to itself that the callbacks keep.
  have hsim : env.traced.Simulates
      (fun s s' => s = s' ∧ ∃ log, s.2 = List.reverse log ++ past) env.traced := by
    constructor
    · rintro call context s _ ⟨rfl, log, hlog⟩
      refine ⟨rfl, rfl, log ++ [⟨.call call (env.call call context s.1).1, context.position,
        context.openHashes.length⟩], ?_⟩
      rw [List.reverse_append, List.append_assoc, ← hlog]
      rfl
    · rintro event context s _ ⟨rfl, log, hlog⟩
      refine ⟨rfl, rfl, log ++ [⟨.event event (env.notify event context s.1).1, context.position,
        context.openHashes.length⟩], ?_⟩
      rw [List.reverse_append, List.append_assoc, ← hlog]
      rfl
  obtain ⟨o, ⟨inner', _⟩, _, ⟨-, log, rfl⟩, hrun, -⟩ :=
    h.simulates hsim p (inner, past) _ ⟨rfl, [], rfl⟩
  exact ⟨o, inner', log, hrun⟩

/-- What succeeds does so with the records of the environment as well. -/
theorem Composed.ok_traced {m : Computation α} (h : Composed source braced own m)
    {env : Environment σ} {s t : State σ} {a : α} (hrun : m σ env s = .ok a t) :
    ∃ inner, m _ env.traced ⟨s.cursor, s.openHashes, s.inner, []⟩ =
      .ok a ⟨t.cursor, t.openHashes, inner⟩ := by
  have hsim : env.Simulates (fun i i' => i'.1 = i) env.traced := by
    constructor <;> rintro _ _ _ i rfl <;> exact ⟨rfl, rfl⟩
  obtain ⟨o, j, j', -, ho, ho'⟩ :=
    h.simulates hsim ⟨s.cursor, s.openHashes⟩ s.inner (s.inner, []) rfl
  have hresult : o.result j = .ok a t := ho.symm.trans hrun
  cases o with
  | error e p => simp [Outcome.result] at hresult
  | ok b p =>
    obtain ⟨rfl, rfl⟩ := EStateM.Result.ok.inj hresult
    exact ⟨j', ho'⟩

/-- What a run records is a trace from the beginning of its window. -/
theorem Composed.traced_run {m : Computation α} (h : Composed source braced own m)
    (env : Environment σ) (window : Cursor) (inner : σ) :
    ∃ o : Outcome α, (run (m _ env.traced) window (inner, [])).1 = o.toExcept ∧
      Traced m ⟨window, []⟩ (run (m _ env.traced) window (inner, [])).2.2.reverse o := by
  obtain ⟨o, inner', log, hrun⟩ := h.run_traced env ⟨window, []⟩ inner []
  rw [run_of_result hrun]
  exact ⟨o, rfl, σ, env, inner, inner', [], by simpa using hrun⟩

/-- A quiet computation has one trace, which is empty. -/
theorem Quiet.traced {m : Computation α} (h : Quiet source m) (p : Place) :
    ∃ o : Outcome α, o.place.openHashes.length = p.openHashes.length ∧
      (∀ e q, o = .error e q → e.IsOwn source) ∧
        ∀ log o', Traced m p log o' → log = [] ∧ o' = o := by
  obtain ⟨o, hlength, hown, hrun⟩ := h p
  refine ⟨o, hlength, hown, ?_⟩
  rintro log o' ⟨σ, env, inner, inner', past, htrace⟩
  obtain ⟨rfl, hstate⟩ := Outcome.result_inj ((hrun _ env.traced (inner, past)).symm.trans htrace)
  exact ⟨(eq_of_recorded (k := []) (Prod.mk.inj hstate).2).symm, rfl⟩

theorem Traced.bind {m : Computation α} {f : α → Computation β} {o : Outcome β}
    (hm : Composed source braced own m) (hf : ∀ a, Composed source braced own (f a))
    (h : Traced (fun σ env => m σ env >>= fun a => f a σ env) p log o) :
    (∃ e q, o = .error e q ∧ Traced m p log (.error e q)) ∨
      ∃ a q first second, log = first ++ second ∧
        Traced m p first (.ok a q) ∧ Traced (f a) q second o := by
  obtain ⟨σ, env, inner, inner', past, htrace⟩ := h
  obtain ⟨o₁, inner₁, first, hrun⟩ := hm.run_traced env p inner past
  cases o₁ with
  | error e q =>
    obtain ⟨rfl, hstate⟩ := Outcome.result_inj ((bind_of_error hrun).symm.trans htrace)
    exact .inl ⟨e, q, rfl, σ, env, inner, inner', past, by rw [← hstate, hrun]⟩
  | ok a q =>
    obtain ⟨o₂, inner₂, second, hrun₂⟩ := (hf a).run_traced env q inner₁ (first.reverse ++ past)
    obtain ⟨rfl, hstate⟩ :=
      Outcome.result_inj (((bind_of_ok hrun).trans hrun₂).symm.trans htrace)
    obtain ⟨rfl, hlog⟩ := Prod.mk.inj hstate
    rw [← List.append_assoc, ← List.reverse_append] at hlog
    exact .inr ⟨a, q, first, second, (eq_of_recorded hlog).symm,
      ⟨σ, env, inner, inner₁, past, hrun⟩, ⟨σ, env, inner₁, inner₂, _, hrun₂⟩⟩

theorem Traced.resolve {call : FunctionCall} {position : Nat} {o : Outcome Value}
    (h : Traced (fun _ env => resolve ⟨source, env⟩ call position) p log o) :
    ∃ answer, log = [p.record (.call call answer)] ∧
      o = .ofAnswer p (Error.call call.name (source.locate position)) answer := by
  obtain ⟨σ, env, inner, inner', past, htrace⟩ := h
  obtain ⟨rfl, hstate⟩ :=
    Outcome.result_inj ((resolve_state env.traced call position p _).symm.trans htrace)
  exact ⟨_, (eq_of_recorded (k := [_]) (Prod.mk.inj hstate).2).symm, rfl⟩

/-- A scope is refused, or its body runs between its beginning and its end. -/
theorem Traced.within {scope : Scope} {start : Nat} {body : Option Response → Computation α}
    {o : Outcome α} (hbody : ∀ response, Composed source braced own (body response))
    (h : Traced (fun σ env => within ⟨source, env⟩ scope start fun response => body response σ env)
      p log o) :
    (∃ e, log = [p.record (.event (.enter scope) (.error e))] ∧
      o = .error (reported source start e) p) ∨
    ∃ response inside o' answer, Traced (body response) p inside o' ∧
      log = p.record (.event (.enter scope) (.ok response)) ::
        (inside ++ [o'.place.record (.event (.leave scope) answer)]) ∧
      o = o'.leave source answer := by
  obtain ⟨σ, env, inner, inner', past, htrace⟩ := h
  rcases henter : env.notify (.enter scope) (p.context source) inner with ⟨e | response, inner₁⟩
  · have hrefused : env.traced.notify (.enter scope) (p.context source) (inner, past) =
        (.error e, inner₁, p.record (.event (.enter scope) (.error e)) :: past) := by
      simp only [Environment.traced, henter]
      rfl
    obtain ⟨rfl, hstate⟩ := Outcome.result_inj ((within_of_refused hrefused).symm.trans htrace)
    exact .inl ⟨e, (eq_of_recorded (k := [_]) (Prod.mk.inj hstate).2).symm, rfl⟩
  · have haccepted : env.traced.notify (.enter scope) (p.context source) (inner, past) =
        (.ok response, inner₁, p.record (.event (.enter scope) (.ok response)) :: past) := by
      simp only [Environment.traced, henter]
      rfl
    obtain ⟨o', inner₂, inside, hrun⟩ := (hbody response).run_traced env p inner₁
      (p.record (.event (.enter scope) (.ok response)) :: past)
    obtain ⟨rfl, hstate⟩ :=
      Outcome.result_inj ((within_of_accepted haccepted hrun).symm.trans htrace)
    refine .inr ⟨response, inside, o', _, ⟨σ, env, inner₁, inner₂, _, hrun⟩, ?_, rfl⟩
    refine (eq_of_recorded (t := past) (.trans ?_ (Prod.mk.inj hstate).2)).symm
    simp
    rfl

/-- A hash is built by a computation that runs with one more hash under construction. -/
theorem Traced.buildHash {m : Computation α} {o : Outcome (α × Hash)}
    (hm : Composed source braced own m)
    (h : Traced (fun σ env => buildHash (m σ env)) p log o) :
    ∃ o', Traced m p.withHash log o' ∧ o = o'.close := by
  obtain ⟨σ, env, inner, inner', past, htrace⟩ := h
  obtain ⟨o', inner₁, log', hrun⟩ := hm.run_traced env p.withHash inner past
  obtain ⟨rfl, hstate⟩ := Outcome.result_inj ((buildHash_state hrun).symm.trans htrace)
  exact ⟨o', ⟨σ, env, inner, inner', past, by rw [hrun, hstate]⟩, rfl⟩

end Evaluation
end TextualData
