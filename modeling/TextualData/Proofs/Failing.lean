import TextualData.Proofs.Deferral

/-!
# Evaluations that fail

`Evaluation.Fails` says that a computation fails with an error, whatever the state of the
environment, as `Evaluation.Gives` says that it gives a result. Its rules follow the first part of a
computation that fails, with those before it giving results.
-/

namespace TextualData
namespace Evaluation

variable {σ α β : Type} {setting : Setting σ} {m : EvalM σ α} {f : α → EvalM σ β} {a : α}
  {c d : Cursor} {hs ks : List Hash} {e : Error}

/-- Whatever the state of the environment, the computation fails with the error. -/
def Fails (m : EvalM σ α) (c : Cursor) (hs : List Hash) (e : Error) : Prop :=
  ∀ inner, ∃ t, m ⟨c, hs, inner⟩ = .error e t

theorem Fails.bind (h : Fails m c hs e) : Fails (m >>= f) c hs e := by
  intro inner
  obtain ⟨t, hrun⟩ := h inner
  exact ⟨t, by simp only [Bind.bind, EStateM.bind, hrun]⟩

/-- What comes after a result fails. -/
theorem Gives.bind_fails (hm : Gives m c hs a d ks) (hf : Fails (f a) d ks e) :
    Fails (m >>= f) c hs e := by
  intro inner
  obtain ⟨inner', hrun⟩ := hm inner
  obtain ⟨t, hrun'⟩ := hf inner'
  exact ⟨t, by simpa only [Bind.bind, EStateM.bind, hrun] using hrun'⟩

theorem Fails.get {f : State σ → EvalM σ β} (hf : ∀ inner, Fails (f ⟨c, hs, inner⟩) c hs e) :
    Fails (get >>= f) c hs e :=
  fun inner => hf inner inner

theorem Fails.ite_false {p : Prop} [Decidable p] {m' : EvalM σ α} (hp : ¬p)
    (h : Fails m c hs e) : Fails (if p then m' else m) c hs e := by
  rwa [if_neg hp]

theorem Fails.scan {m : Scan α} {fault : ScanFault} (h : m c = .error fault d) :
    Fails (scan setting m) c hs (.malformed fault.cause (setting.source.locate fault.position)) :=
  fun inner => ⟨⟨d, hs, inner⟩, by simp only [Evaluation.scan, h]⟩

theorem Fails.fail {position : Nat} {fault : EvaluationFault} :
    Fails (fail setting position fault : EvalM σ α) c hs
      (.evaluation fault (setting.source.locate position)) :=
  fun _ => ⟨_, rfl⟩

/-- A call that has no result is reported at its place. -/
theorem Fails.resolve {g : FunctionCall → Except Error Value}
    (hcalls : setting.environment.ResolvesBy g) {call : FunctionCall} (h : g call = .error e)
    {position : Nat} : Fails (resolve setting call position) c hs
      (.call call.name (setting.source.locate position) e) := by
  intro inner
  have hanswer := (hcalls call ⟨setting.source, c.position, hs⟩ inner).trans h
  refine ⟨⟨c, hs, (setting.environment.call call ⟨setting.source, c.position, hs⟩ inner).2⟩, ?_⟩
  unfold Evaluation.resolve
  simp only [context_cursor, report_cursor]
  split
  · next hcall => simp [hcall] at hanswer
  · next hcall =>
    simp only [hcall, Except.error.injEq] at hanswer ⊢
    rw [hanswer]

/-- With a silent environment the error of a body is that of its scope. -/
theorem Fails.within (hsilent : setting.environment.IsSilent) {scope : Scope} {start : Nat}
    {body : Option Response → EvalM σ α} (h : Fails (body none) c hs e) :
    Fails (within setting scope start body) c hs e := by
  intro inner
  obtain ⟨inner₁, henter⟩ := notify_of_isSilent hsilent (.enter scope) start ⟨c, hs, inner⟩
  obtain ⟨t, hbody⟩ := h inner₁
  obtain ⟨inner₂, hleave⟩ := notify_of_isSilent hsilent (.leave scope) t.cursor.position t
  refine ⟨{ t with inner := inner₂ }, ?_⟩
  simp only [Evaluation.within, Bind.bind, EStateM.bind, henter, hbody, offset_cursor, hleave]

theorem Fails.buildHash (h : Fails m c ([] :: hs) e) : Fails (buildHash m) c hs e := by
  intro inner
  obtain ⟨t, hrun⟩ := h inner
  exact ⟨{ t with openHashes := t.openHashes.tail }, by simp only [Evaluation.buildHash, hrun]⟩

theorem run_eq_error_of_fails {inner : σ} (h : Fails m c [] e) :
    (run m c inner).1 = .error e := by
  obtain ⟨t, hrun⟩ := h inner
  rw [run, hrun]

end Evaluation
end TextualData
