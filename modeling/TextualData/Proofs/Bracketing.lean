import TextualData.Proofs.Traces

/-!
# Callbacks are well bracketed

`Bracketed` is the grammar of the callbacks that an evaluation makes, in their order. Every scope
whose beginning is accepted ends once, innermost first, and the number of hashes under construction
is known at each callback. An evaluation makes such callbacks whatever the environment answers and
wherever it fails.
-/

namespace TextualData

/-- Callbacks that are made while `hashes` hashes are under construction, with those inside the
scopes that they enter. Without `braced`, hashes have braces inside of other scopes only. -/
inductive Bracketed : (braced : Bool) → (hashes : Nat) → List CallbackRecord → Prop where
  | nil {braced : Bool} {hashes : Nat} : Bracketed braced hashes []
  | call {braced : Bool} {hashes position : Nat} {call : FunctionCall}
      {answer : Except Error Value} {later : List CallbackRecord}
      (rest : Bracketed braced hashes later) :
      Bracketed braced hashes (⟨.call call answer, position, hashes⟩ :: later)
  /-- The beginning of a scope that the environment did not accept. -/
  | failed {braced : Bool} {hashes position : Nat} {scope : Scope} {e : Error}
      {later : List CallbackRecord} (rest : Bracketed braced hashes later) :
      Bracketed braced hashes
        (⟨.event (.enter scope) (.error e), position, hashes + scope.hashes⟩ :: later)
  /-- A scope from its beginning to its end. -/
  | scope {braced : Bool} {hashes start stop : Nat} {scope : Scope} {response : Option Response}
      {answer : Except Error (Option Response)} {inside later : List CallbackRecord}
      (inner : Bracketed true (hashes + scope.hashes) inside)
      (deferred : response.isSome → scope.isDeferrable braced → inside = [])
      (rest : Bracketed braced hashes later) :
      Bracketed braced hashes
        (⟨.event (.enter scope) (.ok response), start, hashes + scope.hashes⟩ :: (inside ++
          ⟨.event (.leave scope) answer, stop, hashes + scope.hashes⟩ :: later))

theorem Bracketed.append {braced : Bool} {hashes : Nat} {log log' : List CallbackRecord}
    (h : Bracketed braced hashes log) (h' : Bracketed braced hashes log') :
    Bracketed braced hashes (log ++ log') := by
  -- The second log goes to the end, past the scopes of the first.
  induction h with
  | nil => exact h'
  | call _ ih => exact .call (ih h')
  | failed _ ih => exact .failed (ih h')
  | scope inner deferred _ _ ih =>
    rw [List.cons_append, List.append_assoc, List.cons_append]
    exact .scope inner deferred (ih h')

/-- The open scopes after a callback, innermost first. -/
def Callback.scopes (scopes : List Scope) : Callback → List Scope
  | event (.enter scope) (.ok _) => scope :: scopes
  | event (.leave _) _ => scopes.tail
  | _ => scopes

/-- The open scopes after callbacks, innermost first, if the given scopes were open before. -/
def openScopes (scopes : List Scope) (log : List CallbackRecord) : List Scope :=
  log.foldl (fun scopes r => r.callback.scopes scopes) scopes

theorem openScopes_append (scopes : List Scope) (log log' : List CallbackRecord) :
    openScopes scopes (log ++ log') = openScopes (openScopes scopes log) log' :=
  List.foldl_append

namespace Evaluation

variable {α : Type} {source : Source} {braced : Bool} {own hashes : Nat}

/-- The callbacks of a computation are bracketed, and it leaves as many hashes open as it found,
the innermost `own` of which are not counted as around it. -/
theorem Composed.bracketed {m : Computation α} (h : Composed source braced own m) {p : Place}
    {log : List CallbackRecord} {o : Outcome α} (hp : p.openHashes.length = hashes + own)
    (htrace : Traced m p log o) :
    Bracketed braced hashes log ∧ o.place.openHashes.length = p.openHashes.length := by
  induction h generalizing p hashes log with
  | quiet h =>
    obtain ⟨o', hlength, -, hunique⟩ := h.traced p
    obtain ⟨rfl, rfl⟩ := hunique _ _ htrace
    exact ⟨.nil, hlength⟩
  | bind hm hf ihm ihf =>
    rcases htrace.bind hm hf with ⟨e, q, rfl, hfirst⟩ | ⟨a, q, first, second, rfl, hfirst, hsecond⟩
    · exact ihm hp hfirst
    · obtain ⟨hlog, hlength⟩ := ihm hp hfirst
      obtain ⟨hlog', hlength'⟩ := ihf a (hlength.trans hp) hsecond
      exact ⟨hlog.append hlog', hlength'.trans hlength⟩
  | resolve call position =>
    obtain ⟨answer, rfl, rfl⟩ := htrace.resolve
    obtain rfl : p.openHashes.length = hashes := hp
    refine ⟨.call .nil, ?_⟩
    cases answer <;> rfl
  | within hown hbody hquiet ih =>
    subst hown
    rcases htrace.within hbody with
      ⟨e, rfl, rfl⟩ | ⟨response, inside, o', answer, hinside, rfl, rfl⟩
    · refine ⟨?_, rfl⟩
      simp only [Place.record, hp]
      exact .failed .nil
    · obtain ⟨hlog, hlength⟩ := ih response hp hinside
      rw [Outcome.place_leave]
      refine ⟨?_, hlength⟩
      simp only [Place.record, hlength, hp]
      refine .scope hlog ?_ .nil
      -- The body of a deferred scope is quiet, so it makes no callback.
      intro hsome hdeferrable
      obtain ⟨response, rfl⟩ := Option.isSome_iff_exists.1 hsome
      obtain ⟨_, -, -, hunique⟩ := (hquiet response hdeferrable).traced p
      exact (hunique _ _ hinside).1
  | buildHash hm ih =>
    obtain ⟨o', hinner, rfl⟩ := htrace.buildHash hm
    obtain ⟨hlog, hlength⟩ := ih (congrArg (· + 1) hp) hinner
    refine ⟨hlog, ?_⟩
    rw [Outcome.place_close, Place.withoutHash, List.length_tail, hlength]
    rfl

theorem Composed.run_bracketed {σ : Type} {m : Computation α} (h : Composed source braced 0 m)
    (env : Environment σ) (window : Cursor) (inner : σ) :
    Bracketed braced 0 (run (m _ env.traced) window (inner, [])).2.2.reverse := by
  obtain ⟨o, -, htrace⟩ := h.traced_run env window inner
  exact (h.bracketed rfl htrace).1

end Evaluation

/-- Whatever the environment answers and wherever it fails, the callbacks of an evaluation are
bracketed, from each entry point. -/
theorem evaluation_bracketed {σ : Type} (env : Environment σ) (forced : Bool) (inner : σ) :
    (∀ source : Source,
      Bracketed true 0 (source.evaluate env.traced forced (inner, [])).2.2.reverse ∧
      Bracketed false 0 (source.evaluateHash env.traced forced (inner, [])).2.2.reverse ∧
      Bracketed true 0 (source.evaluateSequence env.traced forced (inner, [])).2.2.reverse) ∧
    ∀ fragment : Fragment,
      Bracketed true 0 (fragment.evaluate env.traced forced (inner, [])).2.2.reverse := by
  refine ⟨fun source => ⟨?_, ?_, ?_⟩, fun fragment => ?_⟩
  · exact (Evaluation.single_composed source forced).run_bracketed env _ inner
  · exact (Evaluation.topHash_composed source forced).run_bracketed env _ inner
  · exact (Evaluation.topSequence_composed source forced).run_bracketed env _ inner
  · exact (Evaluation.single_composed fragment.source forced).run_bracketed env _ inner

end TextualData
