import TextualData.Evaluation

/-!
# Runs that come to a result

A run of a scan or of an evaluation gives a result or an error. The lemmas here take a run that
gives a result apart: `bind_eq_ok` at each step in turn, the others at the single operations.
`Evaluation.within_eq_ok` and `Evaluation.buildHash_eq_ok` do so for the two operations that have
a body. Operations that never fail are passed by equations, such as `get_bind_run`.
-/

namespace TextualData

section
variable {ε σ α β : Type} {s t : σ}

/-- Two computations in sequence give a result through a result of the first. -/
theorem bind_eq_ok {m : EStateM ε σ α} {f : α → EStateM ε σ β} {b : β} :
    (m >>= f) s = .ok b t ↔ ∃ a u, m s = .ok a u ∧ f a u = .ok b t := by
  constructor
  · intro h
    cases hm : m s with
    | ok a u => exact ⟨a, u, rfl, by simpa [bind, EStateM.bind, hm] using h⟩
    | error e u => simp [bind, EStateM.bind, hm] at h
  · rintro ⟨a, u, hm, hf⟩
    simp [bind, EStateM.bind, hm, hf]

/-- A computation whose first part gives a result goes on with it. -/
theorem bind_of_eq_ok {m : EStateM ε σ α} {f : α → EStateM ε σ β} {a : α} (h : m s = .ok a t) :
    (m >>= f) s = f a t := by
  simp [bind, EStateM.bind, h]

/-- A computation whose first part fails goes no further. -/
theorem bind_of_eq_error {m : EStateM ε σ α} {f : α → EStateM ε σ β} {e : ε}
    (h : m s = .error e t) : (m >>= f) s = .error e t := by
  simp [bind, EStateM.bind, h]

theorem pure_eq_ok {a b : α} :
    (pure a : EStateM ε σ α) s = .ok b t ↔ a = b ∧ s = t := by
  simp [pure, EStateM.pure]

/-- A computation that looks at its state goes on with it. -/
theorem get_bind_run (f : σ → EStateM ε σ β) (s : σ) : (get >>= f) s = f s s := rfl

theorem modify_eq_ok {f : σ → σ} {u : Unit} :
    (modify f : EStateM ε σ Unit) s = .ok u t ↔ f s = t := by
  show EStateM.Result.ok () (f s) = .ok u t ↔ _
  simp

theorem set_eq_ok {a : σ} {u : PUnit} :
    (set a : EStateM ε σ PUnit) s = .ok u t ↔ a = t := by
  show EStateM.Result.ok PUnit.unit a = .ok u t ↔ _
  simp

/-- A run of one of two computations. -/
theorem ite_run {p : Prop} [Decidable p] (m n : EStateM ε σ α) (s : σ) :
    (if p then m else n) s = if p then m s else n s := by
  split <;> rfl

end

namespace Scan

variable {α : Type} {c c' : Cursor}

theorem refuseAt_ne_ok {position : Nat} {cause : Malformation} {a : α} :
    (refuseAt position cause : Scan α) c ≠ .ok a c' := by
  show EStateM.Result.error (ScanFault.mk cause position) c ≠ .ok a c'
  simp

theorem refuse_ne_ok {cause : Malformation} {a : α} :
    (refuse cause : Scan α) c ≠ .ok a c' := by
  intro h
  obtain ⟨_, _, _, h⟩ := bind_eq_ok.1 h
  exact refuseAt_ne_ok h

theorem next_eq_ok {u : Unit} : next c = .ok u c' ↔ c.next = c' :=
  modify_eq_ok

/-- A scan that looks ahead goes on with what it sees. -/
theorem peek?_bind_run (f : Option Char → Scan α) (c : Cursor) :
    (peek? >>= f) c = f c.peek? c := rfl

/-- A scan that passes a character goes on behind it. -/
theorem next_bind_run (f : Unit → Scan α) (c : Cursor) : (next >>= f) c = f () c.next := rfl

/-- A scan that first refuses under a condition succeeds only without it. -/
theorem ite_refuse_eq_ok {β : Type} {p : Prop} [Decidable p] {cause : Malformation}
    {f : α → Scan β} {m : Scan β} {b : β} :
    (if p then refuse cause >>= f else m) c = .ok b c' ↔ ¬p ∧ m c = .ok b c' := by
  by_cases hp : p
  · simp only [hp, if_true, not_true_eq_false, false_and, iff_false]
    intro h
    obtain ⟨_, _, h, _⟩ := bind_eq_ok.1 h
    exact refuse_ne_ok h
  · simp [hp]

theorem token_eq_ok {inKey : Bool} {l : List Char} :
    token inKey c = .ok l c' ↔
      ∃ rest, Token.split inKey c.rest = (l, rest) ∧ c.pass l rest = c' := by
  unfold token
  constructor
  · intro h
    simp only [EStateM.Result.ok.injEq] at h
    obtain ⟨rfl, rfl⟩ := h
    exact ⟨_, rfl, rfl⟩
  · rintro ⟨rest, hs, rfl⟩
    simp [hs]

end Scan

namespace Evaluation

variable {σ α β : Type} {setting : Setting σ} {s t : State σ}

theorem scan_eq_ok {m : Scan α} {a : α} :
    scan setting m s = .ok a t ↔ ∃ c, m s.cursor = .ok a c ∧ { s with cursor := c } = t := by
  unfold scan
  constructor
  · intro h
    split at h
    · next b c hm =>
      simp only [EStateM.Result.ok.injEq] at h
      obtain ⟨rfl, rfl⟩ := h
      exact ⟨c, hm, rfl⟩
    · simp at h
  · rintro ⟨c, hm, rfl⟩
    simp [hm]

/-- A computation that scans goes on where the scan has come to. -/
theorem scan_bind_eq_ok {m : Scan α} {f : α → EvalM σ β} {b : β} :
    (scan setting m >>= f) s = .ok b t ↔
      ∃ a c, m s.cursor = .ok a c ∧ f a { s with cursor := c } = .ok b t := by
  constructor
  · intro h
    obtain ⟨a, _, hs, h⟩ := bind_eq_ok.1 h
    obtain ⟨c, hm, rfl⟩ := scan_eq_ok.1 hs
    exact ⟨a, c, hm, h⟩
  · rintro ⟨a, c, hm, h⟩
    exact bind_eq_ok.2 ⟨a, _, scan_eq_ok.2 ⟨c, hm, rfl⟩, h⟩

/-- A computation that passes a character goes on behind it. -/
theorem next_bind_run (f : Unit → EvalM σ β) (s : State σ) :
    (scan setting Scan.next >>= f) s = f () { s with cursor := s.cursor.next } := rfl

theorem refuse_ne_ok {cause : Malformation} {a : α} :
    scan setting (Scan.refuse cause) s ≠ .ok a t := by
  intro h
  obtain ⟨_, h, _⟩ := scan_eq_ok.1 h
  exact Scan.refuse_ne_ok h

theorem refuseAt_ne_ok {position : Nat} {cause : Malformation} {a : α} :
    scan setting (Scan.refuseAt position cause) s ≠ .ok a t := by
  intro h
  obtain ⟨_, h, _⟩ := scan_eq_ok.1 h
  exact Scan.refuseAt_ne_ok h

/-- A computation that first refuses under a condition gives a result only without it. -/
theorem ite_refuse_eq_ok {β : Type} {p : Prop} [Decidable p] {cause : Malformation}
    {f : α → EvalM σ β} {m : EvalM σ β} {b : β} :
    (if p then scan setting (Scan.refuse cause) >>= f else m) s = .ok b t ↔
      ¬p ∧ m s = .ok b t := by
  by_cases hp : p
  · simp only [hp, if_true, not_true_eq_false, false_and, iff_false]
    intro h
    obtain ⟨_, _, h, _⟩ := bind_eq_ok.1 h
    exact refuse_ne_ok h
  · simp [hp]

/-- A computation that first refuses a place under a condition gives a result only without it. -/
theorem ite_refuseAt_eq_ok {β : Type} {p : Prop} [Decidable p] {position : Nat}
    {cause : Malformation} {f : α → EvalM σ β} {m : EvalM σ β} {b : β} :
    (if p then scan setting (Scan.refuseAt position cause) >>= f else m) s = .ok b t ↔
      ¬p ∧ m s = .ok b t := by
  by_cases hp : p
  · simp only [hp, if_true, not_true_eq_false, false_and, iff_false]
    intro h
    obtain ⟨_, _, h, _⟩ := bind_eq_ok.1 h
    exact refuseAt_ne_ok h
  · simp [hp]

theorem fail_ne_ok {position : Nat} {fault : EvaluationFault} {a : α} :
    (fail setting position fault : EvalM σ α) s ≠ .ok a t := by
  show EStateM.Result.error (Error.evaluation fault (setting.source.locate position)) s ≠ .ok a t
  simp

theorem resolve_eq_ok {call : FunctionCall} {position : Nat} {v : Value} :
    resolve setting call position s = .ok v t ↔
      (setting.environment.call call (s.context setting.source) s.inner).1 = .ok v ∧
      { s with inner :=
          (setting.environment.call call (s.context setting.source) s.inner).2 } = t := by
  unfold resolve
  rcases setting.environment.call call (s.context setting.source) s.inner with ⟨_ | w, inner⟩ <;>
    simp

/-- A computation that looks where it is goes on with that place. -/
theorem position_bind_run (f : Nat → EvalM σ β) (s : State σ) :
    (position >>= f) s = f s.cursor.position s := rfl

/-- An expression that is passed over lies between the two places. -/
theorem passExpression_eq_ok {first last : Nat} :
    passExpression setting s = .ok (first, last) t ↔ ∃ c, Scan.extent s.cursor = .ok () c ∧
      { s with cursor := c } = t ∧ s.cursor.position = first ∧ c.position = last := by
  constructor
  · intro h
    rw [passExpression, position_bind_run] at h
    obtain ⟨_, c, hextent, h⟩ := scan_bind_eq_ok.1 h
    rw [position_bind_run] at h
    obtain ⟨hends, rfl⟩ := pure_eq_ok.1 h
    obtain ⟨rfl, rfl⟩ := Prod.mk.inj hends
    exact ⟨c, hextent, rfl, rfl, rfl⟩
  · rintro ⟨c, hextent, rfl, rfl, rfl⟩
    rw [passExpression, position_bind_run,
      bind_of_eq_ok (scan_eq_ok.2 ⟨c, hextent, rfl⟩), position_bind_run]
    rfl

theorem put_eq_ok {key : String} {v : Value} {u : Unit} {h : Hash} {hs : List Hash}
    (hopen : s.openHashes = h :: hs) :
    (put key v : EvalM σ Unit) s = .ok u t ↔
      { s with openHashes := h.insert key v :: hs } = t := by
  simp [put, modifyHash, modify_eq_ok, hopen]

theorem buildHash_eq_ok {body : EvalM σ α} {r : α × Hash} :
    buildHash body s = .ok r t ↔ ∃ u, body { s with openHashes := [] :: s.openHashes } = .ok r.1 u ∧
      u.openHashes.headD [] = r.2 ∧ { u with openHashes := u.openHashes.tail } = t := by
  unfold buildHash
  constructor
  · intro h
    split at h
    · next a u hb =>
      simp only [EStateM.Result.ok.injEq] at h
      obtain ⟨rfl, rfl⟩ := h
      exact ⟨u, hb, rfl, rfl⟩
    · simp at h
  · rintro ⟨u, hb, hr, rfl⟩
    obtain ⟨a, h⟩ := r
    simp only at hb hr
    subst hr
    rw [hb]

end Evaluation

/-- An environment that answers nothing to any event. -/
def Environment.IsSilent {σ : Type} (env : Environment σ) : Prop :=
  ∀ event context inner, (env.notify event context inner).1 = .ok none

/-- What the calls that an environment resolves give is related to them. -/
def Environment.ResolvesWithin {σ : Type} (env : Environment σ)
    (resolves : FunctionCall → Value → Prop) : Prop :=
  ∀ call context inner v, (env.call call context inner).1 = .ok v → resolves call v

theorem Environment.unresolving_isSilent : Environment.unresolving.IsSilent :=
  fun _ _ _ => rfl

namespace Evaluation

variable {σ α : Type} {setting : Setting σ} {s t : State σ}

/-- A silent environment changes nothing but its own state. -/
theorem notify_of_isSilent (h : setting.environment.IsSilent) (event : Event) (position : Nat)
    (s : State σ) :
    ∃ inner, notify setting event position s = .ok none { s with inner := inner } := by
  refine ⟨(setting.environment.notify event (s.context setting.source) s.inner).2, ?_⟩
  have hs := h event (s.context setting.source) s.inner
  unfold notify
  split
  · next response inner he =>
    rw [he] at hs ⊢
    simp only [Except.ok.injEq] at hs
    rw [hs]
  · next e inner he =>
    rw [he] at hs
    simp at hs

/-- A scope gives a result if its body does and both its ends are accepted. -/
theorem within_eq_ok {scope : Scope} {start : Nat} {body : Option Response → EvalM σ α} {a : α} :
    within setting scope start body s = .ok a t ↔ ∃ response u v r,
      notify setting (.enter scope) start s = .ok response u ∧ body response u = .ok a v ∧
        notify setting (.leave scope) v.cursor.position v = .ok r t := by
  constructor
  · intro h
    obtain ⟨response, u, entered, h⟩ := bind_eq_ok.1 h
    cases hbody : body response u with
    | error e v =>
      simp only [hbody] at h
      split at h <;> cases h
    | ok b v =>
      simp only [hbody] at h
      split at h
      · next r _ left =>
        obtain ⟨rfl, rfl⟩ := EStateM.Result.ok.inj h
        exact ⟨response, u, v, r, entered, hbody, left⟩
      · cases h
  · rintro ⟨response, u, v, r, entered, hbody, left⟩
    refine bind_eq_ok.2 ⟨response, u, entered, ?_⟩
    simp only [hbody, offset_cursor, left]

/-- With a silent environment a scope gives what its body gives. -/
theorem within_of_isSilent (h : setting.environment.IsSilent) {scope : Scope} {start : Nat}
    {body : Option Response → EvalM σ α} {a : α}
    (hw : within setting scope start body s = .ok a t) :
    ∃ inner u inner', body none { s with inner := inner } = .ok a u ∧
      { u with inner := inner' } = t := by
  obtain ⟨response, u, v, r, entered, hbody, left⟩ := within_eq_ok.1 hw
  obtain ⟨inner, hi⟩ := notify_of_isSilent h (.enter scope) start s
  obtain ⟨inner', hl⟩ := notify_of_isSilent h (.leave scope) v.cursor.position v
  obtain ⟨rfl, rfl⟩ := EStateM.Result.ok.inj (entered.symm.trans hi)
  obtain ⟨rfl, rfl⟩ := EStateM.Result.ok.inj (left.symm.trans hl)
  exact ⟨inner, v, inner', hbody, rfl⟩

end Evaluation
end TextualData
