import TextualData.Proofs.Blame
import TextualData.Proofs.Finishing
import TextualData.Proofs.Tasks

/-!
# Evaluation comes to an end

`Evaluation.Finishes` says of a computation, whatever the environment answers, that it does not use
up the bound on the recursion if that is enough, and what holds of the place where it ends. An
expression that is evaluated ends behind the place where it began. With five for each character that
is left of the window, the bound is enough, so that an evaluation never fails for it; unless the
environment answers with that very error.
-/

namespace TextualData

/-- The error of a recursion that uses up its bound. -/
def Error.IsExhaustion (e : Error) : Prop :=
  ∃ location, e = .malformed .exhausted location

/-- The environment has answered an event with the error. -/
def Error.IsAnswered (e : Error) (log : List CallbackRecord) : Prop :=
  ∃ r ∈ log, ∃ event, r.callback = .event event (.error e)

/-- More records change nothing. -/
theorem Error.IsAnswered.mono {e : Error} {log log' : List CallbackRecord} (h : e.IsAnswered log)
    (hlog : log ⊆ log') : e.IsAnswered log' := by
  obtain ⟨r, hr, hevent⟩ := h
  exact ⟨r, hlog hr, hevent⟩

namespace Evaluation

variable {σ α β : Type} {source : Source} {env : Environment σ} {enough enough' : Prop}
  {c d : Cursor} {Q R : α → Cursor → Prop} {S : β → Cursor → Prop}

/-- An event is recorded with its answer. -/
theorem notify_log (source : Source) (env : Environment σ) (event : Event) (position : Nat)
    (s : State (σ × List CallbackRecord)) :
    match notify ⟨source, env.traced⟩ event position s with
    | .ok _ t => t.cursor = s.cursor ∧ s.inner.2 ⊆ t.inner.2
    | .error e t => s.inner.2 ⊆ t.inner.2 ∧ (e.IsExhaustion → e.IsAnswered t.inner.2) := by
  rcases hanswer : env.notify event (s.context source) s.inner.1 with ⟨e | response, inner⟩
  · simp only [notify, Environment.traced, hanswer]
    refine ⟨List.subset_cons_self _ _, ?_⟩
    by_cases he : e.isLocated
    · rw [if_pos he]
      exact fun _ => ⟨_, List.mem_cons_self, event, rfl⟩
    · rw [if_neg he]
      rintro ⟨location, hexhausted⟩
      cases hexhausted
  · simp only [notify, Environment.traced, hanswer]
    exact ⟨trivial, List.subset_cons_self _ _⟩

/-- From a place, and whatever the environment has recorded before, a computation has a result as
told, or fails; if the bound on the recursion is enough, not because it is used up. -/
def Finishes (enough : Prop) (m : EvalM (σ × List CallbackRecord) α) (c : Cursor)
    (Q : α → Cursor → Prop) : Prop :=
  ∀ hs inner, match m ⟨c, hs, inner⟩ with
    | .ok a s => Q a s.cursor
    | .error e s => enough → e.IsExhaustion → e.IsAnswered s.inner.2

namespace Finishes

theorem imp {m : EvalM (σ × List CallbackRecord) α} (h : Finishes enough' m c Q)
    (henough : enough → enough') (hQ : ∀ a d, Q a d → R a d) : Finishes enough m c R := by
  intro hs inner
  have hrun := h hs inner
  split at hrun
  · exact hQ _ _ hrun
  · exact fun he => hrun (henough he)

/-- Less may be told of the result. -/
theorem weaken {m : EvalM (σ × List CallbackRecord) α} (h : Finishes enough m c Q)
    (hQ : ∀ a d, Q a d → R a d) : Finishes enough m c R :=
  h.imp id hQ

theorem bind {m : EvalM (σ × List CallbackRecord) α} {f : α → EvalM (σ × List CallbackRecord) β}
    (h : Finishes enough m c Q) (hf : ∀ a d, Q a d → Finishes enough (f a) d S) :
    Finishes enough (m >>= f) c S := by
  intro hs inner
  have hrun := h hs inner
  cases hm : m ⟨c, hs, inner⟩ with
  | ok a s =>
    rw [hm] at hrun
    rw [bind_of_eq_ok hm]
    exact hf a s.cursor hrun s.openHashes s.inner
  | error e s =>
    rw [hm] at hrun
    rw [bind_of_eq_error hm]
    exact hrun

theorem pure {a : α} (hQ : Q a c) :
    Finishes enough (pure a : EvalM (σ × List CallbackRecord) α) c Q :=
  fun _ _ => hQ

theorem get {f : State (σ × List CallbackRecord) → EvalM (σ × List CallbackRecord) α}
    (hf : ∀ s : State (σ × List CallbackRecord), s.cursor = c → Finishes enough (f s) c Q) :
    Finishes enough (MonadState.get >>= f) c Q :=
  fun hs inner => hf ⟨c, hs, inner⟩ rfl hs inner

theorem position {f : Nat → EvalM (σ × List CallbackRecord) α}
    (hf : Finishes enough (f c.position) c Q) :
    Finishes enough (Evaluation.position >>= f) c Q :=
  hf

theorem scan {m : Scan α} {env'} (h : Scan.Finishes enough m c Q) :
    Finishes enough (Evaluation.scan ⟨source, env'⟩ m : EvalM (σ × List CallbackRecord) α) c Q := by
  intro hs inner
  simp only [Evaluation.scan]
  cases hm : m c with
  | ok a d => exact h.result hm
  | error fault d =>
    rintro he ⟨location, hexhausted⟩
    exact absurd (Error.malformed.inj hexhausted).1 (h.cause hm he)

theorem ite {p : Prop} {_ : Decidable p} {m m' : EvalM (σ × List CallbackRecord) α}
    (h : p → Finishes enough m c Q) (h' : ¬p → Finishes enough m' c Q) :
    Finishes enough (if p then m else m') c Q := by
  by_cases hp : p
  · rw [if_pos hp]
    exact h hp
  · rw [if_neg hp]
    exact h' hp

/-- A refusal comes first under a condition. -/
theorem refuse_or {p : Prop} {_ : Decidable p} {m : Scan α} {env'}
    {m' : EvalM (σ × List CallbackRecord) β} (hm : Scan.Finishes enough m c fun _ _ => False)
    (h : ¬p → Finishes enough m' c S) :
    Finishes enough (if p then Evaluation.scan ⟨source, env'⟩ m >>= fun _ => m' else m') c S :=
  .ite (fun _ => .bind (.scan hm) fun _ _ h => h.elim) h

theorem fail {position : Nat} {fault : EvaluationFault} {env'} : Finishes enough
    (Evaluation.fail ⟨source, env'⟩ position fault : EvalM (σ × List CallbackRecord) α) c Q := by
  rintro hs inner - ⟨location, hexhausted⟩
  cases hexhausted

theorem modifyHash {f : Hash → Hash} :
    Finishes enough (Evaluation.modifyHash f : EvalM (σ × List CallbackRecord) Unit) c
      fun _ d => d = c := by
  intro hs inner
  cases hs <;> exact rfl

/-- The cursor is put elsewhere, maybe back. -/
theorem after_move {f : Unit → EvalM (σ × List CallbackRecord) α}
    (place : State (σ × List CallbackRecord) → Cursor)
    (h : ∀ s : State (σ × List CallbackRecord), s.cursor = c → place s = d)
    (hf : Finishes enough (f ()) d Q) :
    Finishes enough ((modify fun s => { s with cursor := place s }) >>= f) c Q := by
  intro hs inner
  have hrun := hf hs inner
  rw [← h ⟨c, hs, inner⟩ rfl] at hrun
  exact hrun

theorem passExpression {env'} :
    Finishes enough
      (Evaluation.passExpression ⟨source, env'⟩ : EvalM (σ × List CallbackRecord) (Nat × Nat)) c
      fun _ d => Scan.extent c = .ok () d := by
  have hextent : Scan.Finishes enough Scan.extent c fun _ d => Scan.extent c = .ok () d := by
    cases h : Scan.extent c with
    | ok _ d => exact Scan.finishes_of_ok h rfl
    | error fault d => exact Scan.finishes_of_error h fun _ => Scan.cause_of_extent h
  exact .position (.bind (.scan hextent) fun _ d hd => .position (.pure hd))

theorem resolve {call : FunctionCall} {position : Nat} :
    Finishes enough (Evaluation.resolve ⟨source, env.traced⟩ call position) c
      fun _ d => d = c := by
  intro hs inner
  rcases hanswer : env.call call ⟨source, c.position, hs⟩ inner.1 with ⟨e | v, inner'⟩
  · simp only [Evaluation.resolve, Environment.traced, context_cursor, report_cursor, hanswer]
    rintro - ⟨location, hexhausted⟩
    cases hexhausted
  · simp only [Evaluation.resolve, Environment.traced, context_cursor, hanswer]

theorem notify {event : Event} {position : Nat} :
    Finishes enough (Evaluation.notify ⟨source, env.traced⟩ event position) c
      fun _ d => d = c := by
  intro hs inner
  have h := notify_log source env event position ⟨c, hs, inner⟩
  cases hm : Evaluation.notify ⟨source, env.traced⟩ event position ⟨c, hs, inner⟩ with
  | ok response t =>
    rw [hm] at h
    exact h.1
  | error e t =>
    rw [hm] at h
    exact fun _ => h.2

theorem within {scope : Scope} {start : Nat}
    {body : Option Response → EvalM (σ × List CallbackRecord) α}
    (hbody : ∀ response, Finishes enough (body response) c Q) :
    Finishes enough (Evaluation.within ⟨source, env.traced⟩ scope start body) c Q := by
  refine .bind .notify ?_
  rintro response _ rfl hs inner
  have hrun := hbody response hs inner
  have leave (s : State (σ × List CallbackRecord)) :=
    notify_log source env (.leave scope) s.cursor.position s
  cases hm : body response ⟨_, hs, inner⟩ with
  | ok a s =>
    rw [hm] at hrun
    have hleave := leave s
    cases hnotify : Evaluation.notify ⟨source, env.traced⟩ (.leave scope) s.cursor.position s with
    | ok _ t =>
      rw [hnotify] at hleave
      simp only [hm, offset_cursor, hnotify]
      rwa [hleave.1]
    | error e t =>
      rw [hnotify] at hleave
      simp only [hm, offset_cursor, hnotify]
      exact fun _ => hleave.2
  | error e s =>
    rw [hm] at hrun
    have hleave := leave s
    -- What is answered to the end of a failed scope is ignored, but recorded.
    cases hnotify : Evaluation.notify ⟨source, env.traced⟩ (.leave scope) s.cursor.position s with
    | ok _ t =>
      rw [hnotify] at hleave
      simp only [hm, offset_cursor, hnotify]
      exact fun he hexhausted => (hrun he hexhausted).mono hleave.2
    | error _ t =>
      rw [hnotify] at hleave
      simp only [hm, offset_cursor, hnotify]
      exact fun he hexhausted => (hrun he hexhausted).mono hleave.1

theorem buildHash {m : EvalM (σ × List CallbackRecord) α} (h : Finishes enough m c Q) :
    Finishes enough (Evaluation.buildHash m) c fun a d => Q a.1 d := by
  intro hs inner
  have hrun := h ([] :: hs) inner
  simp only [Evaluation.buildHash]
  cases hm : m ⟨c, [] :: hs, inner⟩ with
  | ok a s =>
    rw [hm] at hrun
    exact hrun
  | error e s =>
    rw [hm] at hrun
    exact hrun

end Finishes

/-- With a bound that is enough for what is left, the functions of the evaluation come to an end. -/
structure AllFinish (source : Source) (env : Environment σ) (n : Nat) : Prop where
  expression : ∀ {c forced inKey}, Finishes (5 * c.rest.length + 1 ≤ n)
    (expression ⟨source, env.traced⟩ n forced inKey) c fun _ d => d.rest.length < c.rest.length
  hash : ∀ {c forced}, c.peek? = some '{' → Finishes (5 * c.rest.length ≤ n)
    (hash ⟨source, env.traced⟩ n forced) c fun _ d => d.rest.length < c.rest.length
  sequence : ∀ {c forced}, c.peek? = some '[' → Finishes (5 * c.rest.length ≤ n)
    (sequence ⟨source, env.traced⟩ n forced) c fun _ d => d.rest.length < c.rest.length
  unquoted : ∀ {c forced inKey}, c.rest ≠ [] → Finishes (5 * c.rest.length ≤ n)
    (unquoted ⟨source, env.traced⟩ n forced inKey) c fun _ d => d.rest.length < c.rest.length
  itemsUpTo : ∀ {c closing forced opening}, Finishes (5 * c.rest.length + 4 ≤ n)
    (itemsUpTo ⟨source, env.traced⟩ n closing forced opening) c
    fun _ d => d.rest.length ≤ c.rest.length
  items : ∀ {c closing forced opening}, Finishes (5 * c.rest.length + 3 ≤ n)
    (items ⟨source, env.traced⟩ n closing forced opening) c
    fun _ d => d.rest.length ≤ c.rest.length
  entriesUpTo : ∀ {c closing forced opening}, Finishes (5 * c.rest.length + 4 ≤ n)
    (entriesUpTo ⟨source, env.traced⟩ n closing forced opening) c
    fun _ d => d.rest.length ≤ c.rest.length
  entries : ∀ {c closing forced opening}, Finishes (5 * c.rest.length + 3 ≤ n)
    (entries ⟨source, env.traced⟩ n closing forced opening) c
    fun _ d => d.rest.length ≤ c.rest.length
  entry : ∀ {c closing forced}, Finishes (5 * c.rest.length + 2 ≤ n)
    (entry ⟨source, env.traced⟩ n closing forced) c fun _ d => d.rest.length < c.rest.length
  keyValue : ∀ {c name start forced}, Finishes (5 * c.rest.length + 2 ≤ n)
    (keyValue ⟨source, env.traced⟩ n name start forced) c fun _ d => d.rest.length ≤ c.rest.length

theorem AllFinish.zero : AllFinish source env 0 where
  expression := by simp only [Evaluation.expression]; exact .scan (.exhausted (by omega))
  hash h := by
    have hpos := Extent.length_pos h
    simp only [Evaluation.hash]
    exact .scan (.exhausted (by omega))
  sequence h := by
    have hpos := Extent.length_pos h
    simp only [Evaluation.sequence]
    exact .scan (.exhausted (by omega))
  unquoted h := by
    have hpos := List.length_pos_iff.2 h
    simp only [Evaluation.unquoted]
    exact .scan (.exhausted (by omega))
  itemsUpTo := by simp only [Evaluation.itemsUpTo]; exact .scan (.exhausted (by omega))
  items := by simp only [Evaluation.items]; exact .scan (.exhausted (by omega))
  entriesUpTo := by simp only [Evaluation.entriesUpTo]; exact .scan (.exhausted (by omega))
  entries := by simp only [Evaluation.entries]; exact .scan (.exhausted (by omega))
  entry := by simp only [Evaluation.entry]; exact .scan (.exhausted (by omega))
  keyValue := by simp only [Evaluation.keyValue]; exact .scan (.exhausted (by omega))

section
variable {n : Nat} {forced inKey : Bool} {closing : Option Char} {opening start : Nat}

theorem expression_finishes (ih : AllFinish source env n) :
    Finishes (5 * c.rest.length + 1 ≤ n + 1) (expression ⟨source, env.traced⟩ (n + 1) forced inKey)
      c fun _ d => d.rest.length < c.rest.length := by
  simp only [Evaluation.expression]
  refine .get fun s hs => ?_
  rw [hs]
  split
  · exact .scan (.refuse (by simp))
  · next x rest hrest =>
    have hpeek : c.peek? = some x := by simp [Cursor.peek?, hrest]
    refine .ite (fun hx => ?_) fun _ => .ite (fun hx => ?_) fun _ => .ite (fun _ => ?_) fun _ => ?_
    · exact (ih.hash (hx ▸ hpeek)).imp (by omega) fun _ _ => id
    · exact (ih.sequence (hx ▸ hpeek)).imp (by omega) fun _ _ => id
    · exact .bind (.scan (.quoted hpeek)) fun _ _ hd => .pure hd
    · cases Literal.rawQuotation? (x :: rest) with
      | some quotation => exact .bind (.scan .raw) fun _ _ hd => .pure hd
      | none => exact (ih.unquoted (by simp [hrest])).imp (by omega) fun _ _ => id

theorem hash_finishes (ih : AllFinish source env n) (opens : c.peek? = some '{') :
    Finishes (5 * c.rest.length ≤ n + 1) (hash ⟨source, env.traced⟩ (n + 1) forced) c
      fun _ d => d.rest.length < c.rest.length := by
  have hlt := Cursor.next_length_lt opens
  simp only [Evaluation.hash]
  refine .get fun s hs => ?_
  rw [hs]
  refine .bind (.scan .next) fun _ d hd => ?_
  subst hd
  refine .bind (.buildHash (Q := fun _ d => d.rest.length < c.rest.length) (.position
    (.within fun response => .ite (fun _ => ?_) fun _ => ?_))) fun a e he => ?_
  · exact .bind (ih.entriesUpTo.imp (by omega) fun _ _ => id) fun _ e he => .pure (by omega)
  · -- The hash is passed over from its opening brace and left from its closing one.
    refine .after_move _ (fun _ _ => rfl) (.bind .passExpression fun _ d hd => ?_)
    obtain ⟨e, he, hcloses, rfl⟩ :=
      ((Scan.extent_stays_of_brace opens (Cursor.Leads.refl c)).leads hd).2
    refine .after_move _ (fun s hs => by rw [hs, Cursor.previous_next hcloses]) (.pure ?_)
    exact Nat.lt_of_le_of_lt he.length_le hlt
  · have hle := (Cursor.Leads.next e).length_le
    refine .bind (.scan .next) fun _ d hd => .pure ?_
    rw [hd]
    omega

theorem sequence_finishes (ih : AllFinish source env n) (opens : c.peek? = some '[') :
    Finishes (5 * c.rest.length ≤ n + 1) (sequence ⟨source, env.traced⟩ (n + 1) forced) c
      fun _ d => d.rest.length < c.rest.length := by
  have hlt := Cursor.next_length_lt opens
  simp only [Evaluation.sequence]
  refine .position (.bind (.scan .next) fun _ d hd => ?_)
  subst hd
  refine .position (.bind (.within fun _ => ih.itemsUpTo.imp (by omega) fun _ _ => id)
    fun _ e he => .bind (.scan .next) fun _ d hd => .pure ?_)
  have hle := (Cursor.Leads.next e).length_le
  rw [hd]
  omega

theorem unquoted_finishes (ih : AllFinish source env n) :
    Finishes (5 * c.rest.length ≤ n + 1) (unquoted ⟨source, env.traced⟩ (n + 1) forced inKey) c
      fun _ d => d.rest.length < c.rest.length := by
  simp only [Evaluation.unquoted]
  refine .position (.bind (.scan .token) fun l stop hstop => ?_)
  refine .refuse_or (.refuse (by simp)) fun hl => .get fun s hs => ?_
  rw [hs]
  have hlt := hstop.2 fun h => hl (by simp [h])
  refine .bind (.scan .blanks) fun _ e he => .get fun s hs => ?_
  rw [hs]
  refine .ite (fun hopen => ?_) fun _ => .after_move _ (fun _ _ => rfl) (.pure hlt)
  have hopen := Cursor.next_length_lt hopen
  refine .position (.bind (.scan .next) fun _ d hd => ?_)
  subst hd
  refine .bind (.within fun _ => ih.itemsUpTo.imp (by omega) fun _ _ => id) fun _ d hd => ?_
  have hle := (Cursor.Leads.next d).length_le
  refine .bind (.scan .next) fun _ d' hd' => .ite (fun _ => .pure (by rw [hd']; omega)) fun _ => ?_
  exact Finishes.resolve.weaken fun _ d'' h => by rw [h, hd']; omega

theorem itemsUpTo_finishes (ih : AllFinish source env n) :
    Finishes (5 * c.rest.length + 4 ≤ n + 1)
      (itemsUpTo ⟨source, env.traced⟩ (n + 1) closing forced opening) c
      fun _ d => d.rest.length ≤ c.rest.length := by
  simp only [Evaluation.itemsUpTo]
  exact .bind (.scan .blanks) fun _ d hd => ih.items.imp (by omega) fun _ e he => by omega

theorem items_finishes (ih : AllFinish source env n) :
    Finishes (5 * c.rest.length + 3 ≤ n + 1)
      (items ⟨source, env.traced⟩ (n + 1) closing forced opening) c
      fun _ d => d.rest.length ≤ c.rest.length := by
  simp only [Evaluation.items]
  refine .get fun s hs => ?_
  rw [hs]
  cases c.peek? with
  | none =>
    cases closing with
    | none => exact .pure (Nat.le_refl _)
    | some closing => exact .scan (.refuseAt (by simp))
  | some x =>
    refine .ite (fun _ => .pure (Nat.le_refl _)) fun _ =>
      .ite (fun _ => .scan (.refuse (by simp))) fun _ => ?_
    refine .bind (ih.expression.imp (by omega) fun _ _ => id) fun _ d hd => ?_
    refine .bind (.scan .separator) fun _ e he => .ite (fun _ => .pure (by omega)) fun _ => ?_
    exact .bind (ih.items.imp (by omega) fun _ _ => id) fun _ e' he' => .pure (by omega)

theorem entriesUpTo_finishes (ih : AllFinish source env n) :
    Finishes (5 * c.rest.length + 4 ≤ n + 1)
      (entriesUpTo ⟨source, env.traced⟩ (n + 1) closing forced opening) c
      fun _ d => d.rest.length ≤ c.rest.length := by
  simp only [Evaluation.entriesUpTo]
  exact .bind (.scan .blanks) fun _ d hd => ih.entries.imp (by omega) fun _ e he => by omega

theorem entries_finishes (ih : AllFinish source env n) :
    Finishes (5 * c.rest.length + 3 ≤ n + 1)
      (entries ⟨source, env.traced⟩ (n + 1) closing forced opening) c
      fun _ d => d.rest.length ≤ c.rest.length := by
  simp only [Evaluation.entries]
  refine .get fun s hs => ?_
  rw [hs]
  cases c.peek? with
  | none =>
    cases closing with
    | none => exact .pure (Nat.le_refl _)
    | some closing => exact .scan (.refuseAt (by simp))
  | some x =>
    refine .ite (fun _ => .pure (Nat.le_refl _)) fun _ =>
      .ite (fun _ => .scan (.refuse (by simp))) fun _ => ?_
    refine .bind (ih.entry.imp (by omega) fun _ _ => id) fun _ d hd => ?_
    exact .ite (fun _ => .pure (by omega)) fun _ => ih.entries.imp (by omega) fun _ e he => by omega

theorem resolveKey_finishes {key : Value} :
    Finishes enough (resolveKey ⟨source, env.traced⟩ key start) c fun _ d => d = c := by
  cases key with
  | call name params => exact .bind .resolve fun _ d hd => .pure hd
  | _ => exact .pure rfl

theorem keyName_finishes {key : Value} {unresolved : Bool} {env'} : Finishes enough
    (keyName ⟨source, env'⟩ key unresolved start : EvalM (σ × List CallbackRecord) String) c
    fun _ d => d = c := by
  cases key with
  | string name => exact .pure rfl
  | _ => exact .ite (fun _ => .fail) fun _ => .fail

theorem storeBare_finishes {key : Value} {fromCall unresolved : Bool} :
    Finishes enough (storeBare ⟨source, env.traced⟩ key fromCall unresolved start) c
      fun _ d => d = c := by
  have refusal : ∀ v : Value, Finishes enough
      (if unresolved then
        (fail ⟨source, env.traced⟩ start .unresolvedKey : EvalM (σ × List CallbackRecord) Unit)
      else fail ⟨source, env.traced⟩ start (.resultKind v.kind)) c fun _ d => d = c :=
    fun v => .ite (fun _ => .fail) fun _ => .fail
  cases key with
  | hash entries => cases fromCall <;> exact .modifyHash
  | string name =>
    cases fromCall with
    | false => exact .within fun _ => .ite (fun _ => .pure rfl) fun _ => .modifyHash
    | true => exact refusal _
  | _ =>
    cases fromCall with
    | false => exact .fail
    | true => exact refusal _

theorem entry_finishes (ih : AllFinish source env n) :
    Finishes (5 * c.rest.length + 2 ≤ n + 1) (entry ⟨source, env.traced⟩ (n + 1) closing forced) c
      fun _ d => d.rest.length < c.rest.length := by
  simp only [Evaluation.entry]
  refine .position (.bind (ih.expression.imp (by omega) fun _ _ => id) fun key d hd => ?_)
  refine .bind resolveKey_finishes fun _ d' hd' => ?_
  subst hd'
  refine .bind (.scan .separator) fun sep e he => .ite (fun _ => ?_) fun _ => ?_
  · refine .bind keyName_finishes fun _ e' he' => ?_
    subst he'
    refine .bind (ih.keyValue.imp (by omega) fun _ _ => id) fun _ d hd => ?_
    exact (Finishes.scan .separator).weaken fun _ d' hd' => by omega
  · refine .bind storeBare_finishes fun _ e' he' => .pure ?_
    subst he'
    omega

theorem keyValue_finishes (ih : AllFinish source env n) {name : String} :
    Finishes (5 * c.rest.length + 2 ≤ n + 1)
      (keyValue ⟨source, env.traced⟩ (n + 1) name start forced) c
      fun _ d => d.rest.length ≤ c.rest.length := by
  simp only [Evaluation.keyValue]
  refine .get fun s hs => .refuse_or (.refuseAt (by simp)) fun _ => .within fun response => ?_
  cases response with
  | none =>
    refine .bind (ih.expression.imp (by omega) fun _ _ => id) fun _ d hd => ?_
    exact Finishes.modifyHash.weaken fun _ e he => by rw [he]; omega
  | some response =>
    refine .bind .passExpression fun _ d hd => ?_
    have hle := (extent_eq_ok.1 hd).leads.length_le
    refine .ite (fun _ => ?_) fun _ => .pure hle
    exact Finishes.modifyHash.weaken fun _ e he => by rw [he]; exact hle

end

theorem allFinish (source : Source) (env : Environment σ) : ∀ n, AllFinish source env n
  | 0 => .zero
  | n + 1 =>
    have ih := allFinish source env n
    { expression := expression_finishes ih
      hash := hash_finishes ih
      sequence := sequence_finishes ih
      unquoted := fun _ => unquoted_finishes ih
      itemsUpTo := itemsUpTo_finishes ih
      items := items_finishes ih
      entriesUpTo := entriesUpTo_finishes ih
      entries := entries_finishes ih
      entry := entry_finishes ih
      keyValue := keyValue_finishes ih }

theorem single_finishes (forced : Bool) :
    Finishes True (single ⟨source, env.traced⟩ forced) c fun _ _ => True := by
  simp only [single]
  refine .get fun s hs => .bind (.scan .blanks) fun _ d hd => ?_
  rw [hs]
  refine .get fun s' hs' => .refuse_or (.refuse (by simp)) fun _ => ?_
  refine .bind ((allFinish source env _).expression.imp (fun _ => ?_) fun _ _ => id) fun v e _ => ?_
  · simp only [bound]
    omega
  · exact .bind (.scan .blanks) fun _ d' _ => .get fun s'' hs'' => .ite (fun _ => .pure trivial)
      fun _ => .bind (.scan (.refuse (Q := fun _ _ => False) (by simp))) fun _ _ h => h.elim

theorem topHash_finishes (forced : Bool) :
    Finishes True (topHash ⟨source, env.traced⟩ forced) c fun _ _ => True := by
  simp only [topHash]
  refine .get fun s hs => ?_
  rw [hs]
  refine .bind (.buildHash (Q := fun _ _ => True) (.within fun _ => ?_)) fun a d _ => .pure trivial
  refine (allFinish source env _).entriesUpTo.imp (fun _ => ?_) fun _ _ _ => trivial
  simp only [bound]
  omega

theorem topSequence_finishes (forced : Bool) :
    Finishes True (topSequence ⟨source, env.traced⟩ forced) c fun _ _ => True := by
  simp only [topSequence]
  refine .get fun s hs => ?_
  rw [hs]
  refine .within fun _ => (allFinish source env _).itemsUpTo.imp (fun _ => ?_) fun _ _ _ => trivial
  simp only [bound]
  omega

/-- What comes to an end with the records of an environment does so without them. -/
theorem Composed.result_of_finishes {braced : Bool} {own : Nat} {m : Computation α}
    (h : Composed source braced own m) {s t : State σ} {a : α}
    (hfinishes : Finishes enough (m _ env.traced) s.cursor Q) (hrun : m σ env s = .ok a t) :
    Q a t.cursor := by
  obtain ⟨inner, htraced⟩ := h.ok_traced hrun
  have hresult := hfinishes s.openHashes (s.inner, [])
  rwa [htraced] at hresult

section
variable {n : Nat} {s t : State σ}

theorem length_lt_of_expression {forced inKey : Bool} {v : Value}
    (h : expression ⟨source, env⟩ n forced inKey s = .ok v t) :
    t.cursor.rest.length < s.cursor.rest.length :=
  ((allComposed source n).expression forced inKey).result_of_finishes
    (allFinish source env n).expression h

theorem length_lt_of_entry {closing : Option Char} {forced : Bool} {separator : Separator}
    (h : entry ⟨source, env⟩ n closing forced s = .ok separator t) :
    t.cursor.rest.length < s.cursor.rest.length :=
  ((allComposed source n).entry closing forced).result_of_finishes
    (allFinish source env n).entry h

end
end Evaluation

namespace Task

open Evaluation

variable {σ : Type}

theorem program_finishes (task : Task) (env : Environment σ) :
    Finishes True (task.program _ env.traced) task.window fun _ _ => True := by
  cases task with
  | text source mode forced =>
    cases mode with
    | hash => exact .bind (topHash_finishes forced) fun _ _ _ => .pure trivial
    | sequence => exact .bind (topSequence_finishes forced) fun _ _ _ => .pure trivial
    | expression => exact single_finishes forced
  | fragment f forced => exact single_finishes forced

/-- The bound on the recursion is never used up: an evaluation that fails as if it were has been
answered so by its environment. -/
theorem isAnswered_of_isExhaustion (task : Task) (env : Environment σ) (inner : σ) {e : Error}
    (hrun : (task.evaluate env inner).1 = .error e) (he : e.IsExhaustion) :
    e.IsAnswered (task.callbacks env inner) := by
  have hsim : env.Simulates (fun i i' => i'.1 = i) env.traced := by
    constructor <;> rintro _ _ _ i rfl <;> exact ⟨rfl, rfl⟩
  rw [(task.evaluate_simulates hsim inner (inner, []) rfl).1, evaluate_eq_run, run] at hrun
  have hfinishes := task.program_finishes env [] (inner, [])
  rw [callbacks, evaluate_eq_run, run]
  split at hfinishes
  · next a s hresult => simp [hresult] at hrun
  · next e' s hresult =>
    simp only [hresult] at hrun ⊢
    obtain rfl := Except.error.inj hrun
    exact (hfinishes trivial he).mono fun _ => List.mem_reverse.2

end Task
end TextualData
