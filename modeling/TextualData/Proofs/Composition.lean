import TextualData.Evaluation

/-!
# What evaluation is composed of

Evaluation is the same computation in every environment. It is composed of parts that make no
callback, of calls that the environment resolves, of scopes, and of hashes under construction.
`Composed` says so, and what all these parts keep is kept by every evaluation.
-/

namespace TextualData

/-- An error that evaluation itself finds in a text. -/
inductive Error.IsOwn (source : Source) : Error → Prop where
  | malformed (fault : Malformation) (position : Nat) :
      IsOwn source (.malformed fault (source.locate position))
  | evaluation (fault : EvaluationFault) (position : Nat) :
      IsOwn source (.evaluation fault (source.locate position))

/-- The number of hashes that a scope puts under construction. -/
def Scope.hashes : Scope → Nat
  | hash => 1
  | _ => 0

/-- Whether an answer to the beginning of a scope takes the place of its evaluation. A hash without
braces is evaluated in any case. -/
def Scope.isDeferrable (braced : Bool) : Scope → Bool
  | key _ => true
  | hash => braced
  | _ => false

namespace Evaluation

/-- A state without that of the environment. -/
structure Place where
  cursor : Cursor
  openHashes : List Hash

/-- The state at a place. -/
def Place.state {σ : Type} (p : Place) (inner : σ) : State σ :=
  ⟨p.cursor, p.openHashes, inner⟩

/-- What a run comes to, with the place where it ends. -/
inductive Outcome (α : Type) where
  | ok (a : α) (p : Place)
  | error (e : Error) (p : Place)

/-- Where a run ends. -/
def Outcome.place {α : Type} : Outcome α → Place
  | ok _ p => p
  | error _ p => p

/-- The result of a run that leaves the environment in a state. -/
def Outcome.result {σ α : Type} (inner : σ) : Outcome α → EStateM.Result Error (State σ) α
  | ok a p => .ok a (p.state inner)
  | error e p => .error e (p.state inner)

/-- What is computed in each environment. -/
abbrev Computation (α : Type) := (σ : Type) → Environment σ → EvalM σ α

variable {α β : Type} {source : Source}

/-- A computation that makes no callback. Its outcome is the same in all environments, it leaves as
many hashes open as it found, and its errors are its own. -/
def Quiet (source : Source) (m : Computation α) : Prop :=
  ∀ p : Place, ∃ o : Outcome α, o.place.openHashes.length = p.openHashes.length ∧
    (∀ e q, o = .error e q → e.IsOwn source) ∧
      ∀ σ env inner, m σ env (p.state inner) = o.result (σ := σ) inner

/-- The cursor. -/
def here : Computation Cursor := fun _ _ s => .ok s.cursor s

namespace Quiet

/-- A computation that goes to another place. -/
theorem of_ok {m : Computation α} {a : Place → α} {f : Place → Place}
    (hlength : ∀ p, (f p).openHashes.length = p.openHashes.length)
    (hrun : ∀ σ env p inner, m σ env (p.state inner) = .ok (a p) ((f p).state inner)) :
    Quiet source m :=
  fun p => ⟨.ok (a p) (f p), hlength p, fun _ _ h => by simp at h, fun σ env => hrun σ env p⟩

theorem pure (a : α) : Quiet source fun _ _ => pure a :=
  of_ok (f := id) (fun _ => rfl) fun _ _ _ _ => rfl

theorem here : Quiet source here :=
  of_ok (f := id) (fun _ => rfl) fun _ _ _ _ => rfl

theorem position : Quiet source fun _ _ => position :=
  of_ok (a := fun p => p.cursor.position) (f := id) (fun _ => rfl) fun _ _ _ _ => rfl

theorem goTo (c : Cursor) : Quiet source fun _ _ => modify fun s => { s with cursor := c } :=
  of_ok (f := fun p => { p with cursor := c }) (fun _ => rfl) fun _ _ _ _ => rfl

theorem goBack : Quiet source fun _ _ => modify fun s => { s with cursor := s.cursor.previous } :=
  of_ok (f := fun p => { p with cursor := p.cursor.previous }) (fun _ => rfl) fun _ _ _ _ => rfl

theorem modifyHash (f : Hash → Hash) : Quiet source fun _ _ => modifyHash f := by
  refine of_ok (a := fun _ => ())
    (f := fun p => ⟨p.cursor, p.openHashes.head?.elim [] fun h => f h :: p.openHashes.tail⟩) ?_ ?_
  · rintro ⟨c, _ | ⟨h, hs⟩⟩ <;> rfl
  · rintro σ env ⟨c, _ | ⟨h, hs⟩⟩ inner <;> rfl

theorem put (key : String) (v : Value) : Quiet source fun _ _ => put key v :=
  .modifyHash _

theorem fail (position : Nat) (fault : EvaluationFault) :
    Quiet source fun _ env => (fail ⟨source, env⟩ position fault : EvalM _ α) :=
  fun p => ⟨.error _ p, rfl, fun _ _ h => (Outcome.error.inj h).1 ▸ .evaluation fault position,
    fun _ _ _ => rfl⟩

theorem scan (m : Scan α) : Quiet source fun _ env => scan ⟨source, env⟩ m := by
  intro p
  cases h : m p.cursor with
  | ok a c =>
    refine ⟨.ok a ⟨c, p.openHashes⟩, rfl, fun _ _ h => by simp at h, fun σ env inner => ?_⟩
    simp only [Evaluation.scan, Place.state, h, Outcome.result]
  | error fault c =>
    refine ⟨.error _ ⟨c, p.openHashes⟩, rfl, fun _ _ h => (Outcome.error.inj h).1 ▸
      .malformed fault.cause fault.position, fun σ env inner => ?_⟩
    simp only [Evaluation.scan, Place.state, h, Outcome.result]

theorem bind {m : Computation α} {f : α → Computation β} (hm : Quiet source m)
    (hf : ∀ a, Quiet source (f a)) : Quiet source fun σ env => m σ env >>= fun a => f a σ env := by
  intro p
  obtain ⟨o, hlength, hown, hrun⟩ := hm p
  cases o with
  | ok a q =>
    obtain ⟨o', hlength', hown', hrun'⟩ := hf a q
    refine ⟨o', hlength'.trans hlength, hown', fun σ env inner => ?_⟩
    simp only [Bind.bind, EStateM.bind, hrun, Outcome.result, hrun']
  | error e q =>
    refine ⟨.error e q, hlength, fun e' q' h => ?_, fun σ env inner => ?_⟩
    · obtain ⟨rfl, rfl⟩ := Outcome.error.inj h
      exact hown e q rfl
    · simp only [Bind.bind, EStateM.bind, hrun, Outcome.result]

theorem ite {p : Prop} {_ : Decidable p} {m m' : Computation α} (h : Quiet source m)
    (h' : Quiet source m') : Quiet source fun σ env => if p then m σ env else m' σ env := by
  by_cases hp : p
  · simpa only [hp, if_true] using h
  · simpa only [hp, if_false] using h'

theorem passExpression : Quiet source fun _ env => passExpression ⟨source, env⟩ :=
  .bind .position fun _ => .bind (.scan _) fun _ => .bind .position fun _ => .pure _

end Quiet

/-- A computation that is composed of quiet parts, of calls, of scopes and of hashes under
construction. The innermost `own` hashes are not counted as around it; without `braced`, a hash
around which there is no scope has no braces. -/
inductive Composed (source : Source) :
    (braced : Bool) → (own : Nat) → {α : Type} → Computation α → Prop where
  | quiet {braced : Bool} {own : Nat} {α : Type} {m : Computation α} (h : Quiet source m) :
      Composed source braced own m
  | bind {braced : Bool} {own : Nat} {α β : Type} {m : Computation α} {f : α → Computation β}
      (hm : Composed source braced own m) (hf : ∀ a, Composed source braced own (f a)) :
      Composed source braced own fun σ env => m σ env >>= fun a => f a σ env
  | resolve {braced : Bool} (call : FunctionCall) (position : Nat) :
      Composed source braced 0 fun _ env => resolve ⟨source, env⟩ call position
  /-- A scope, whose body has to be quiet if it stands for a deferred one. -/
  | within {braced : Bool} {own : Nat} {α : Type} {scope : Scope} {start : Nat}
      {body : Option Response → Computation α} (hown : scope.hashes = own)
      (hbody : ∀ response, Composed source true 0 (body response))
      (hquiet : ∀ response, scope.isDeferrable braced → Quiet source (body (some response))) :
      Composed source braced own fun σ env =>
        within ⟨source, env⟩ scope start fun response => body response σ env
  | buildHash {braced : Bool} {α : Type} {m : Computation α} (h : Composed source braced 1 m) :
      Composed source braced 0 fun σ env => buildHash (m σ env)

namespace Composed

variable {braced : Bool} {own : Nat}

/-- After a quiet step comes what follows. -/
theorem after_quiet {m : Computation α} {f : α → Computation β} (hm : Quiet source m)
    (hf : ∀ a, Composed source braced own (f a)) :
    Composed source braced own fun σ env => m σ env >>= fun a => f a σ env :=
  .bind (.quiet hm) hf

/-- What is done with a state depends on its cursor. -/
theorem get {f : (σ : Type) → Environment σ → State σ → EvalM σ α}
    (hf : ∀ c, Composed source braced own fun σ env s => f σ env { s with cursor := c } s) :
    Composed source braced own fun σ env => get >>= f σ env :=
  .after_quiet (f := fun c σ env s => f σ env { s with cursor := c } s) .here hf

theorem ite {p : Prop} {_ : Decidable p} {m m' : Computation α} (h : Composed source braced own m)
    (h' : Composed source braced own m') :
    Composed source braced own fun σ env => if p then m σ env else m' σ env := by
  by_cases hp : p
  · simpa only [hp, if_true] using h
  · simpa only [hp, if_false] using h'

/-- A refusal comes first under a condition. -/
theorem refuse_or {p : Prop} {_ : Decidable p} {scan : Scan α} {m : Computation β}
    (h : Composed source braced own m) : Composed source braced own fun σ env =>
      if p then Evaluation.scan ⟨source, env⟩ scan >>= fun _ => m σ env else m σ env :=
  .ite (.after_quiet (.scan _) fun _ => h) h

end Composed

/-- Evaluation with a given bound. -/
structure AllComposed (source : Source) (n : Nat) : Prop where
  expression : ∀ forced inKey,
    Composed source true 0 fun _ env => expression ⟨source, env⟩ n forced inKey
  hash : ∀ forced, Composed source true 0 fun _ env => hash ⟨source, env⟩ n forced
  sequence : ∀ forced, Composed source true 0 fun _ env => sequence ⟨source, env⟩ n forced
  unquoted : ∀ forced inKey,
    Composed source true 0 fun _ env => unquoted ⟨source, env⟩ n forced inKey
  itemsUpTo : ∀ closing forced opening,
    Composed source true 0 fun _ env => itemsUpTo ⟨source, env⟩ n closing forced opening
  items : ∀ closing forced opening,
    Composed source true 0 fun _ env => items ⟨source, env⟩ n closing forced opening
  entriesUpTo : ∀ closing forced opening,
    Composed source true 0 fun _ env => entriesUpTo ⟨source, env⟩ n closing forced opening
  entries : ∀ closing forced opening,
    Composed source true 0 fun _ env => entries ⟨source, env⟩ n closing forced opening
  entry : ∀ closing forced, Composed source true 0 fun _ env => entry ⟨source, env⟩ n closing forced
  keyValue : ∀ name start forced,
    Composed source true 0 fun _ env => keyValue ⟨source, env⟩ n name start forced

theorem AllComposed.zero : AllComposed source 0 where
  expression _ _ := by simp only [Evaluation.expression]; exact .quiet (.scan _)
  hash _ := by simp only [Evaluation.hash]; exact .quiet (.scan _)
  sequence _ := by simp only [Evaluation.sequence]; exact .quiet (.scan _)
  unquoted _ _ := by simp only [Evaluation.unquoted]; exact .quiet (.scan _)
  itemsUpTo _ _ _ := by simp only [Evaluation.itemsUpTo]; exact .quiet (.scan _)
  items _ _ _ := by simp only [Evaluation.items]; exact .quiet (.scan _)
  entriesUpTo _ _ _ := by simp only [Evaluation.entriesUpTo]; exact .quiet (.scan _)
  entries _ _ _ := by simp only [Evaluation.entries]; exact .quiet (.scan _)
  entry _ _ := by simp only [Evaluation.entry]; exact .quiet (.scan _)
  keyValue _ _ _ := by simp only [Evaluation.keyValue]; exact .quiet (.scan _)

section
variable {n : Nat}

theorem expression_composed (ih : AllComposed source n) (forced inKey : Bool) :
    Composed source true 0 fun _ env => expression ⟨source, env⟩ (n + 1) forced inKey := by
  simp only [Evaluation.expression]
  refine .get fun c => ?_
  dsimp only
  cases c.rest with
  | nil => exact .quiet (.scan _)
  | cons x l =>
    refine .ite (ih.hash forced) (.ite (ih.sequence forced) (.ite ?_ ?_))
    · exact .quiet (.bind (.scan _) fun _ => .pure _)
    · cases Literal.rawQuotation? (x :: l) with
      | some quotation => exact .quiet (.bind (.scan _) fun _ => .pure _)
      | none => exact ih.unquoted forced inKey

theorem hash_composed (ih : AllComposed source n) (forced : Bool) :
    Composed source true 0 fun _ env => hash ⟨source, env⟩ (n + 1) forced := by
  simp only [Evaluation.hash]
  refine .get fun start => ?_
  dsimp only
  refine .after_quiet (.scan _) fun _ => .bind ?_ fun _ => .after_quiet (.scan _) fun _ =>
    .quiet (.pure _)
  have captured : Quiet source fun _ env =>
      modify (fun s => { s with cursor := start }) >>= fun _ =>
        passExpression ⟨source, env⟩ >>= fun range =>
          modify (fun s => { s with cursor := s.cursor.previous }) >>= fun _ =>
            pure (some (source.fragment range.1 range.2)) :=
    .bind (.goTo _) fun _ => .bind .passExpression fun _ => .bind .goBack fun _ => .pure _
  refine .buildHash (.after_quiet .position fun _ => .within rfl (fun response => .ite ?_ ?_) ?_)
  · exact .bind (ih.entriesUpTo _ forced _) fun _ => .quiet (.pure _)
  · exact .quiet captured
  · exact fun _ _ => captured

theorem sequence_composed (ih : AllComposed source n) (forced : Bool) :
    Composed source true 0 fun _ env => sequence ⟨source, env⟩ (n + 1) forced := by
  simp only [Evaluation.sequence]
  refine .after_quiet .position fun _ => .after_quiet (.scan _) fun _ =>
    .after_quiet .position fun _ => .bind ?_ fun _ => .after_quiet (.scan _) fun _ =>
    .quiet (.pure _)
  exact .within rfl (fun _ => ih.itemsUpTo _ forced _) fun _ h => absurd h Bool.false_ne_true

theorem unquoted_composed (ih : AllComposed source n) (forced inKey : Bool) :
    Composed source true 0 fun _ env => unquoted ⟨source, env⟩ (n + 1) forced inKey := by
  simp only [Evaluation.unquoted]
  refine .after_quiet .position fun _ => .after_quiet (.scan _) fun l => .refuse_or ?_
  refine .get fun stop => ?_
  dsimp only
  refine .after_quiet (.scan _) fun _ => .get fun c => ?_
  dsimp +instances only
  refine .ite ?_ ?_
  · refine .after_quiet .position fun _ => .after_quiet (.scan _) fun _ => .bind ?_ fun params =>
      .after_quiet (.scan _) fun _ => .ite (.quiet (.pure _)) (.resolve _ _)
    exact .within rfl (fun _ => ih.itemsUpTo _ forced _) fun _ h => absurd h Bool.false_ne_true
  · exact .quiet (.bind (.goTo _) fun _ => .pure _)

theorem itemsUpTo_composed (ih : AllComposed source n) (closing : Option Char) (forced : Bool)
    (opening : Nat) :
    Composed source true 0 fun _ env =>
      itemsUpTo ⟨source, env⟩ (n + 1) closing forced opening := by
  simp only [Evaluation.itemsUpTo]
  exact .after_quiet (.scan _) fun _ => ih.items closing forced opening

theorem items_composed (ih : AllComposed source n) (closing : Option Char) (forced : Bool)
    (opening : Nat) :
    Composed source true 0 fun _ env => items ⟨source, env⟩ (n + 1) closing forced opening := by
  simp only [Evaluation.items]
  refine .get fun c => ?_
  dsimp only
  cases c.peek? with
  | none =>
    cases closing with
    | none => exact .quiet (.pure _)
    | some closing => exact .quiet (.scan _)
  | some x =>
    refine .ite (.quiet (.pure _)) (.ite (.quiet (.scan _)) ?_)
    refine .bind (ih.expression forced false) fun _ => .after_quiet (.scan _) fun _ =>
      .ite (.quiet (.pure _)) ?_
    exact .bind (ih.items closing forced opening) fun _ => .quiet (.pure _)

theorem entriesUpTo_composed (ih : AllComposed source n) (closing : Option Char) (forced : Bool)
    (opening : Nat) :
    Composed source true 0 fun _ env =>
      entriesUpTo ⟨source, env⟩ (n + 1) closing forced opening := by
  simp only [Evaluation.entriesUpTo]
  exact .after_quiet (.scan _) fun _ => ih.entries closing forced opening

theorem entries_composed (ih : AllComposed source n) (closing : Option Char) (forced : Bool)
    (opening : Nat) :
    Composed source true 0 fun _ env => entries ⟨source, env⟩ (n + 1) closing forced opening := by
  simp only [Evaluation.entries]
  refine .get fun c => ?_
  dsimp only
  cases c.peek? with
  | none =>
    cases closing with
    | none => exact .quiet (.pure _)
    | some closing => exact .quiet (.scan _)
  | some x =>
    refine .ite (.quiet (.pure _)) (.ite (.quiet (.scan _)) ?_)
    exact .bind (ih.entry closing forced) fun _ =>
      .ite (.quiet (.pure _)) (ih.entries closing forced opening)

theorem resolveKey_composed (key : Value) (start : Nat) :
    Composed source true 0 fun _ env => resolveKey ⟨source, env⟩ key start := by
  cases key with
  | call name params => exact .bind (.resolve _ _) fun _ => .quiet (.pure _)
  | _ => exact .quiet (.pure _)

theorem keyName_quiet (key : Value) (unresolved : Bool) (start : Nat) :
    Quiet source fun _ env => keyName ⟨source, env⟩ key unresolved start := by
  cases key with
  | string name => exact .pure _
  | _ => exact .ite (.fail _ _) (.fail _ _)

theorem storeFlag_composed (name : String) (start : Nat) :
    Composed source true 0 fun _ env => storeFlag ⟨source, env⟩ name start := by
  have stored : ∀ response : Option Response, Quiet source fun _ _ =>
      if response = some .skip then pure () else put name (.boolean true) :=
    fun _ => .ite (.pure _) (.put _ _)
  exact .within rfl (fun response => .quiet (stored response)) fun response _ => stored response

theorem storeBare_composed (key : Value) (fromCall unresolved : Bool) (start : Nat) :
    Composed source true 0 fun _ env =>
      storeBare ⟨source, env⟩ key fromCall unresolved start := by
  have refusal : ∀ v : Value, Composed source true 0 fun _ env =>
      if unresolved then (fail ⟨source, env⟩ start .unresolvedKey : EvalM _ Unit)
      else fail ⟨source, env⟩ start (.resultKind v.kind) :=
    fun v => .ite (.quiet (.fail _ _)) (.quiet (.fail _ _))
  cases key with
  | hash entries => cases fromCall <;> exact .quiet (.modifyHash _)
  | string name =>
    cases fromCall with
    | false => exact storeFlag_composed name start
    | true => exact refusal _
  | _ =>
    cases fromCall with
    | false => exact .quiet (.fail _ _)
    | true => exact refusal _

theorem entry_composed (ih : AllComposed source n) (closing : Option Char) (forced : Bool) :
    Composed source true 0 fun _ env => entry ⟨source, env⟩ (n + 1) closing forced := by
  simp only [Evaluation.entry]
  refine .after_quiet .position fun start => .bind (ih.expression false true) fun key =>
    .bind (resolveKey_composed key start) fun _ => .after_quiet (.scan _) fun _ => .ite ?_ ?_
  · exact .after_quiet (keyName_quiet _ _ _) fun _ => .bind (ih.keyValue _ _ _) fun _ =>
      .quiet (.scan _)
  · exact .bind (storeBare_composed _ _ _ _) fun _ => .quiet (.pure _)

theorem keyValue_composed (ih : AllComposed source n) (name : String) (start : Nat)
    (forced : Bool) :
    Composed source true 0 fun _ env => keyValue ⟨source, env⟩ (n + 1) name start forced := by
  have captured : ∀ response : Response, Quiet source fun _ env =>
      passExpression ⟨source, env⟩ >>= fun range =>
        if response = .fragment then put name (.fragment (source.fragment range.1 range.2))
        else pure () :=
    fun _ => .bind .passExpression fun _ => .ite (.put _ _) (.pure _)
  simp only [Evaluation.keyValue]
  refine .get fun c => ?_
  dsimp +instances only
  refine .refuse_or (.within rfl (fun response => ?_) ?_)
  · cases response with
    | none => exact .bind (ih.expression forced false) fun _ => .quiet (.put _ _)
    | some response => exact .quiet (captured response)
  · exact fun response _ => captured response

/-- Evaluation is composed, whatever the bound. -/
theorem allComposed (source : Source) : ∀ n, AllComposed source n
  | 0 => .zero
  | n + 1 =>
    have ih := allComposed source n
    { expression := expression_composed ih
      hash := hash_composed ih
      sequence := sequence_composed ih
      unquoted := unquoted_composed ih
      itemsUpTo := itemsUpTo_composed ih
      items := items_composed ih
      entriesUpTo := entriesUpTo_composed ih
      entries := entries_composed ih
      entry := entry_composed ih
      keyValue := keyValue_composed ih }

theorem single_composed (source : Source) (forced : Bool) :
    Composed source true 0 fun _ env => single ⟨source, env⟩ forced := by
  refine .get fun c => ?_
  dsimp only
  refine .after_quiet (.scan _) fun _ => .get fun c' => ?_
  dsimp +instances only
  refine .refuse_or (.bind ((allComposed source _).expression forced false) fun v =>
    .after_quiet (.scan _) fun _ => .get fun c'' => ?_)
  dsimp +instances only
  exact .ite (.quiet (.pure v)) (.after_quiet (.scan _) fun _ => .quiet (.pure v))

theorem topHash_composed (source : Source) (forced : Bool) :
    Composed source false 0 fun _ env => topHash ⟨source, env⟩ forced := by
  refine .get fun c => ?_
  dsimp only
  refine .bind (.buildHash ?_) fun _ => .quiet (.pure _)
  exact .within rfl (fun _ => (allComposed source _).entriesUpTo _ _ _)
    fun _ h => absurd h Bool.false_ne_true

theorem topSequence_composed (source : Source) (forced : Bool) :
    Composed source true 0 fun _ env => topSequence ⟨source, env⟩ forced := by
  refine .get fun c => ?_
  dsimp only
  exact .within rfl (fun _ => (allComposed source _).itemsUpTo _ _ _)
    fun _ h => absurd h Bool.false_ne_true

end
end Evaluation
end TextualData
