import TextualData.Proofs.Failing
import TextualData.Proofs.WholeExpressions

/-!
# Entries one after the other

The entries of a hash, written one after the other with commas between them, change the hash in
their order: `Effect.apply` says what each of them does, and `Effect.applyAll` what they do
together. A call in the place of a key is resolved there; it fails at its place if its result is of
the wrong kind.
-/

namespace TextualData

/-- What an entry does to the hash that it stands in. -/
inductive Effect where
  | insert (name : String) (v : Value)
  | extend (entries : Hash)
  /-- Takes over the entries of the hash that a call gives. -/
  | extendBy (call : FunctionCall)
  /-- Puts a value under the key that a call gives. -/
  | insertUnder (call : FunctionCall) (v : Value)

/-- An entry as it is written, and what it does. -/
structure Entry where
  text : List Char
  effect : Effect

/-- The text is an entry. Where there is a key, a value follows it directly after the colon. -/
inductive Environment.IsEntry {σ : Type} (env : Environment σ) : List Char → Effect → Prop where
  | pair {k l : List Char} {name : String} {v : Value}
      (key : env.ReadsAll false true k (.string name)) (value : env.ReadsAll false false l v) :
      IsEntry env (k ++ ':' :: l) (.insert name v)
  /-- A key on its own. -/
  | flag {k : List Char} {name : String} (key : env.ReadsAll false true k (.string name)) :
      IsEntry env k (.insert name (.boolean true))
  | hash {l : List Char} {h : Hash} (braced : env.ReadsAll false true l (.hash h)) :
      IsEntry env l (.extend h)
  | call {l : List Char} {name : String} {params : List Value}
      (call : env.ReadsAll false true l (.call name params)) :
      IsEntry env l (.extendBy ⟨name, params⟩)
  /-- A call that stands for a key, with its value. -/
  | callPair {k l : List Char} {name : String} {params : List Value} {v : Value}
      (call : env.ReadsAll false true k (.call name params))
      (value : env.ReadsAll false false l v) :
      IsEntry env (k ++ ':' :: l) (.insertUnder ⟨name, params⟩ v)

/-- The first character of an entry. -/
theorem Environment.IsEntry.exists_mayBegin {σ : Type} {env : Environment σ}
    {f : FunctionCall → Except Error Value} {l : List Char} {effect : Effect}
    (h : env.IsEntry l effect) (hsilent : env.IsSilent) (hcalls : env.ResolvesBy f) :
    ∃ x m, l = x :: m ∧ Value.MayBegin x := by
  cases h with
  | flag h | hash h | call h => exact h.exists_mayBegin hsilent hcalls
  | pair h | callPair h =>
    obtain ⟨x, m, rfl, hx⟩ := h.exists_mayBegin hsilent hcalls
    exact ⟨x, _, rfl, hx⟩

namespace Effect

/-- The hash after an entry that stands at a place, where calls give what `f` says. -/
def apply (f : FunctionCall → Except Error Value) (place : Location) (h : Hash) :
    Effect → Except Error Hash
  | insert name v => .ok (h.insert name v)
  | extend entries => .ok (h.merge entries)
  | extendBy call =>
    match f call with
    | .ok (.hash entries) => .ok (h.merge entries)
    | .ok v =>
      .error (.evaluation (if v.equal call.toValue then .unresolvedKey else .resultKind v.kind)
        place)
    | .error e => .error (.call call.name place e)
  | insertUnder call v =>
    match f call with
    | .ok (.string name) => .ok (h.insert name v)
    | .ok w =>
      .error (.evaluation (if w.equal call.toValue then .unresolvedKey else .keyKind w.kind) place)
    | .error e => .error (.call call.name place e)

/-- The hash after entries with one character between any two of them, the first at a given
place. -/
def applyAll (f : FunctionCall → Except Error Value) (source : Source) :
    (position : Nat) → Hash → List Entry → Except Error Hash
  | _, h, [] => .ok h
  | position, h, e :: es => do
    let h ← apply f (source.locate position) h e.effect
    applyAll f source (position + Text.byteSize e.text + 1) h es

end Effect

namespace Evaluation

variable {σ α β : Type} {setting : Setting σ} {c d d' : Cursor} {h : Hash} {hs : List Hash}
  {result : Except Error Hash} {a : α} {b : β}

/-- Whatever the state of the environment, the computation changes the innermost hash to the result
and moves the cursor to a place, unless it fails with the error that is told instead. -/
def ChangesHash (m : EvalM σ α) (c : Cursor) (h : Hash) (hs : List Hash)
    (result : Except Error Hash) (a : α) (d : Cursor) : Prop :=
  match result with
  | .ok new => Gives m c (h :: hs) a d (new :: hs)
  | .error e => Fails m c (h :: hs) e

namespace ChangesHash

theorem bind {m : EvalM σ α} {f : α → EvalM σ β} {more : Hash → Except Error Hash}
    (hm : ChangesHash m c h hs result a d)
    (hf : ∀ new, ChangesHash (f a) d new hs (more new) b d') :
    ChangesHash (m >>= f) c h hs (result >>= more) b d' := by
  cases result with
  | error e => exact Fails.bind hm
  | ok new =>
    show ChangesHash (m >>= f) c h hs (more new) b d'
    have hf := hf new
    cases hmore : more new with
    | error e =>
      rw [hmore] at hf
      exact Gives.bind_fails hm hf
    | ok new' =>
      rw [hmore] at hf
      exact Gives.bind hm hf

/-- Before a change the cursor may move. -/
theorem of_gives_bind {m : EvalM σ α} {f : α → EvalM σ β} (hm : Gives m c (h :: hs) a d (h :: hs))
    (hf : ChangesHash (f a) d h hs result b d') : ChangesHash (m >>= f) c h hs result b d' := by
  cases result with
  | error e => exact Gives.bind_fails hm hf
  | ok new => exact Gives.bind hm hf

theorem get {f : State σ → EvalM σ β} (hf : ∀ inner,
    ChangesHash (f ⟨c, h :: hs, inner⟩) c h hs result b d) :
    ChangesHash (get >>= f) c h hs result b d := by
  cases result with
  | error e => exact Fails.get hf
  | ok new => exact Gives.get hf

theorem ite_true {p : Prop} [Decidable p] {m m' : EvalM σ α} (hp : p)
    (hm : ChangesHash m c h hs result a d) :
    ChangesHash (if p then m else m') c h hs result a d := by
  rwa [if_pos hp]

theorem ite_false {p : Prop} [Decidable p] {m m' : EvalM σ α} (hp : ¬p)
    (hm : ChangesHash m c h hs result a d) :
    ChangesHash (if p then m' else m) c h hs result a d := by
  rwa [if_neg hp]

theorem pure : ChangesHash (pure a : EvalM σ α) c h hs (.ok h) a c :=
  Gives.pure

end ChangesHash

/-- The change comes first, and then a result is given. -/
theorem ChangesHash.bind_pure {m : EvalM σ α} (hm : ChangesHash m c h hs result a d) :
    ChangesHash (m >>= fun _ => Pure.pure b) c h hs result b d := by
  cases result with
  | error e => exact Fails.bind hm
  | ok new => exact Gives.bind hm .pure

section
variable {f : FunctionCall → Except Error Value} {call : FunctionCall} {separator : Separator}
  {c₁ c₂ c₃ c₄ : Cursor} {v : Value} {n start : Nat}

/-- The result of a call in place of a key. -/
theorem resolveKey_gives (hcalls : setting.environment.ResolvesBy f) (hcall : f call = .ok v) :
    Gives (resolveKey setting call.toValue start) c hs (v, true, v.equal call.toValue) c hs :=
  .bind (.resolve hcalls.resolves hcall) .pure

theorem resolveKey_fails (hcalls : setting.environment.ResolvesBy f) {e : Error}
    (hcall : f call = .error e) : Fails (resolveKey setting call.toValue start) c hs
      (.call call.name (setting.source.locate start) e) :=
  .bind (.resolve hcalls hcall)

/-- What the result of a call without a colon changes. -/
theorem storeBare_changes (hcall : f call = .ok v) :
    ChangesHash (storeBare setting v true (v.equal call.toValue) start) c h hs
      ((Effect.extendBy call).apply f (setting.source.locate start) h) () c := by
  simp only [Effect.apply, hcall]
  cases v with
  | hash entries => exact Gives.merge
  | _ =>
    simp only [ChangesHash, storeBare]
    split <;> exact .fail

/-- A call in place of an entry takes over the entries that it gives. -/
theorem bareCall_changes (hcalls : setting.environment.ResolvesBy f)
    (first : Yields setting (.value false true call.toValue) c c₁)
    (separated : Scan.separator none none c₁ = .ok separator c₂) (noColon : separator ≠ .colon)
    (hn : 5 * c.rest.length + 2 ≤ n) :
    ChangesHash (entry setting n none false) c h hs
      ((Effect.extendBy call).apply f (setting.source.locate c.position) h) separator c₂ := by
  obtain ⟨n, rfl⟩ : ∃ k, n = k + 1 := ⟨n - 1, by omega⟩
  rw [Evaluation.entry]
  refine .of_gives_bind .position (.of_gives_bind (first n _ (by omega)) ?_)
  cases hcall : f call with
  | error e =>
    simp only [Effect.apply, hcall]
    exact Fails.bind (resolveKey_fails hcalls hcall)
  | ok v =>
    refine .of_gives_bind (resolveKey_gives hcalls hcall) (.of_gives_bind (.scan separated) ?_)
    exact .ite_false noColon (.bind_pure (storeBare_changes hcall))

/-- A call in place of a key puts the value under the key that it gives. -/
theorem callPair_changes (hsilent : setting.environment.IsSilent)
    (hcalls : setting.environment.ResolvesBy f)
    (first : Yields setting (.value false true call.toValue) c c₁)
    (colon : Scan.separator none none c₁ = .ok .colon c₂) (hasValue : c₂.rest ≠ [])
    (second : Yields setting (.value false false v) c₂ c₃)
    (separated : Scan.separator none (some .valueGiven) c₃ = .ok separator c₄)
    (hless : c₁.rest.length < c.rest.length) (hn : 5 * c.rest.length + 2 ≤ n) :
    ChangesHash (entry setting n none false) c h hs
      ((Effect.insertUnder call v).apply f (setting.source.locate c.position) h) separator c₄ := by
  cases hcall : f call with
  | error e =>
    obtain ⟨n, rfl⟩ : ∃ k, n = k + 1 := ⟨n - 1, by omega⟩
    simp only [Effect.apply, hcall]
    rw [Evaluation.entry]
    exact .of_gives_bind .position (.of_gives_bind (first n _ (by omega))
      (Fails.bind (resolveKey_fails hcalls hcall)))
  | ok w =>
    by_cases hw : ∃ name, w = .string name
    · obtain ⟨name, rfl⟩ := hw
      simp only [Effect.apply, hcall]
      exact Gives.pairEntry hsilent hcalls.resolves first (.call hcall) colon hasValue second
        separated hless hn
    · obtain ⟨n, rfl⟩ : ∃ k, n = k + 1 := ⟨n - 1, by omega⟩
      rw [Evaluation.entry]
      refine .of_gives_bind .position (.of_gives_bind (first n _ (by omega)) ?_)
      refine .of_gives_bind (resolveKey_gives hcalls hcall) (.of_gives_bind (.scan colon) ?_)
      refine .ite_true rfl ?_
      simp only [Effect.apply, hcall]
      cases w with
      | string name => exact absurd ⟨name, rfl⟩ hw
      | _ =>
        simp only [ChangesHash]
        refine .bind ?_
        simp only [keyName]
        split <;> exact .fail

end

section
variable {f : FunctionCall → Except Error Value} {separator : Separator}
  {k l before rest : List Char} {effect : Effect} {key v : Value} {n opening : Nat}

/-- A text that is one expression is evaluated to its value wherever it ends. -/
theorem yields_of_readsAll (hsilent : setting.environment.IsSilent)
    (hcalls : setting.environment.ResolvesBy f) {forced inKey : Bool}
    (hl : setting.environment.ReadsAll forced inKey l v)
    (ends : Cursor.EndsExpression ⟨l.reverse ++ before, rest⟩ inKey) :
    Yields setting (.value forced inKey v) ⟨before, l ++ rest⟩ ⟨l.reverse ++ before, rest⟩ :=
  yields_of_reads hsilent hcalls.resolves (hl.reads hsilent hcalls ends)

/-- The colon after a key, before a value. -/
theorem separator_colon (hsilent : setting.environment.IsSilent)
    (hcalls : setting.environment.ResolvesBy f)
    (hl : setting.environment.ReadsAll false false l v) (before rest : List Char) :
    Scan.separator none none ⟨before, ':' :: (l ++ rest)⟩ = .ok .colon ⟨':' :: before, l ++ rest⟩ :=
  (separator_iff_of_blanks (Scan.blanks_of_delimiter rfl (by decide) (by decide))).2 <|
    .colon rfl rfl (hl.blanks hsilent hcalls (Cursor.isInLine_cons (by decide) _ _))

/-- A key with its colon, and the value after it. -/
structure Halves (setting : Setting σ) (key v : Value) (c c₁ c₂ c₃ : Cursor) : Prop where
  first : Yields setting (.value false true key) c c₁
  colon : Scan.separator none none c₁ = .ok .colon c₂
  hasValue : c₂.rest ≠ []
  second : Yields setting (.value false false v) c₂ c₃
  less : c₁.rest.length < c.rest.length

theorem halves (hsilent : setting.environment.IsSilent)
    (hcalls : setting.environment.ResolvesBy f)
    (hk : setting.environment.ReadsAll false true k key)
    (hl : setting.environment.ReadsAll false false l v)
    (ends : Cursor.EndsExpression ⟨(k ++ ':' :: l).reverse ++ before, rest⟩ false) :
    Halves setting key v ⟨before, k ++ ':' :: l ++ rest⟩
      ⟨k.reverse ++ before, ':' :: (l ++ rest)⟩ ⟨':' :: (k.reverse ++ before), l ++ rest⟩
      ⟨(k ++ ':' :: l).reverse ++ before, rest⟩ := by
  have hend : (k ++ ':' :: l).reverse ++ before = l.reverse ++ ':' :: (k.reverse ++ before) := by
    simp
  rw [hend] at ends ⊢
  rw [List.append_assoc, List.cons_append]
  obtain ⟨x, m, hk', -⟩ := hk.exists_mayBegin hsilent hcalls
  obtain ⟨y, m', hl', -⟩ := hl.exists_mayBegin hsilent hcalls
  exact {
    first := yields_of_readsAll hsilent hcalls hk
      (Cursor.endsExpression_of_mark rfl (.inr (.inr ⟨rfl, rfl⟩)))
    colon := separator_colon hsilent hcalls hl _ _
    hasValue := by simp [hl']
    second := yields_of_readsAll hsilent hcalls hl ends
    less := by
      simp only [hk', List.cons_append, List.length_append, List.length_cons]
      omega }

/-- An entry changes the hash as told, if something that ends an expression and separates entries
comes after it. -/
theorem entry_changes (hsilent : setting.environment.IsSilent)
    (hcalls : setting.environment.ResolvesBy f) (hentry : setting.environment.IsEntry l effect)
    (ends : ∀ inKey, Cursor.EndsExpression ⟨l.reverse ++ before, rest⟩ inKey)
    (separated : ∀ refusal, Scan.separator none refusal ⟨l.reverse ++ before, rest⟩ =
      .ok separator d) (noColon : separator ≠ .colon) (hn : 5 * (l ++ rest).length + 2 ≤ n) :
    ChangesHash (entry setting n none false) ⟨before, l ++ rest⟩ h hs
      (effect.apply f (setting.source.locate (Text.byteSize before)) h) separator d := by
  cases hentry with
  | flag hkey =>
    exact Gives.bareEntry hcalls.resolves (yields_of_readsAll hsilent hcalls hkey (ends true))
      (.plain (by simp)) (separated none) noColon
      (fun _ => .within hsilent (.ite_false (by simp) .put)) hn
  | hash hbraced =>
    exact Gives.bareEntry hcalls.resolves (yields_of_readsAll hsilent hcalls hbraced (ends true))
      (.plain (by simp)) (separated none) noColon (fun _ => .merge) hn
  | call hcall =>
    exact bareCall_changes hcalls (yields_of_readsAll hsilent hcalls hcall (ends true))
      (separated none) noColon hn
  | pair hkey hvalue =>
    obtain ⟨first, colon, hasValue, second, less⟩ := halves hsilent hcalls hkey hvalue (ends false)
    exact Gives.pairEntry hsilent hcalls.resolves first (.plain (by simp)) colon hasValue second
      (separated _) less hn
  | callPair hcall hvalue =>
    obtain ⟨first, colon, hasValue, second, less⟩ := halves hsilent hcalls hcall hvalue (ends false)
    exact callPair_changes hsilent hcalls first colon hasValue second (separated _) less hn

/-- The entry at the cursor changes the hash, and so do those after it, unless it is the last. -/
theorem entries_step (hl : ∃ x m, l = x :: m ∧ Value.MayBegin x) {more : Hash → Except Error Hash}
    (hentry : ChangesHash (entry setting n none false) ⟨before, l ++ rest⟩ h hs result separator d)
    (hlast : separator = .closing → more = .ok ∧ d' = d)
    (hmore : separator ≠ .closing → ∀ new,
      ChangesHash (entries setting n none false opening) d new hs (more new) () d') :
    ChangesHash (entries setting (n + 1) none false opening) ⟨before, l ++ rest⟩ h hs
      (result >>= more) () d' := by
  obtain ⟨x, m, rfl, hx⟩ := hl
  rw [Evaluation.entries]
  refine .get fun inner => ?_
  simp only [Cursor.peek?, List.cons_append, List.head?_cons]
  refine .ite_false (by simp) (.ite_false (hx.ne (by decide)) (.bind hentry fun new => ?_))
  by_cases hclosing : separator = .closing
  · obtain ⟨rfl, rfl⟩ := hlast hclosing
    exact .ite_true hclosing .pure
  · exact .ite_false hclosing (hmore hclosing new)

/-- Entries with commas between them begin like the first of them. -/
private theorem exists_joined {e : Entry} {x : Char} {m : List Char} (hx : e.text = x :: m)
    (es : List Entry) : ∃ m', [','].intercalate ((e :: es).map Entry.text) = x :: m' := by
  cases es <;> simp [hx, List.intercalate_cons_cons]

/-- Entries with commas between them change the hash up to the end of the text. -/
theorem entries_change (hsilent : setting.environment.IsSilent)
    (hcalls : setting.environment.ResolvesBy f) (e : Entry) (es : List Entry)
    (hentries : ∀ e' ∈ e :: es, setting.environment.IsEntry e'.text e'.effect) (before : List Char)
    (h : Hash) (n : Nat)
    (hn : 5 * ([','].intercalate ((e :: es).map Entry.text)).length + 3 ≤ n) :
    ChangesHash (entries setting n none false opening)
      ⟨before, [','].intercalate ((e :: es).map Entry.text)⟩ h hs
      (Effect.applyAll f setting.source (Text.byteSize before) h (e :: es)) ()
      ⟨([','].intercalate ((e :: es).map Entry.text)).reverse ++ before, []⟩ := by
  have hentry := hentries e (by simp)
  have hl := hentry.exists_mayBegin hsilent hcalls
  obtain ⟨n, rfl⟩ : ∃ k, n = k + 1 := ⟨n - 1, by omega⟩
  cases es with
  | nil =>
    have hjoined : [','].intercalate ([e].map Entry.text) = e.text ++ [] := by simp
    rw [hjoined] at hn ⊢
    let d : Cursor := ⟨(e.text ++ []).reverse ++ before, []⟩
    have hend : (e.text ++ []).reverse = e.text.reverse := by simp
    refine entries_step hl (entry_changes (d := d) hsilent hcalls hentry ?_ ?_ ?_ (by omega))
      (fun _ => ⟨rfl, rfl⟩) fun h => absurd rfl h
    · exact fun _ => Cursor.endsExpression_of_rest_eq_nil rfl
    · rw [← hend]
      exact fun _ => rfl
    · decide
  | cons e' es =>
    have hentries' : ∀ e'' ∈ e' :: es, setting.environment.IsEntry e''.text e''.effect :=
      fun e'' he => hentries e'' (List.mem_cons_of_mem _ he)
    obtain ⟨x, m, hx, hbegins⟩ := (hentries' e' (by simp)).exists_mayBegin hsilent hcalls
    generalize hmore : [','].intercalate ((e' :: es).map Entry.text) = more
    have hjoined : [','].intercalate ((e :: e' :: es).map Entry.text) = e.text ++ ',' :: more := by
      simp [List.intercalate_cons_cons, ← hmore]
    rw [hjoined] at hn ⊢
    simp only [List.length_append, List.length_cons] at hn
    let d : Cursor := ⟨',' :: (e.text.reverse ++ before), more⟩
    have hposition : d.position = Text.byteSize before + Text.byteSize e.text + 1 := by
      simp [d, Cursor.position, show ','.utf8Size = 1 from rfl]
      omega
    have hend : (e.text ++ ',' :: more).reverse ++ before = more.reverse ++ d.before := by simp [d]
    have hblanks : Scan.blanks d = .ok false d := by
      obtain ⟨m', hm'⟩ := exists_joined hx es
      rw [hmore] at hm'
      exact Cursor.blanks_of_mayBegin hm' hbegins (Cursor.isInLine_cons (by decide) _ _)
    rw [hend]
    refine entries_step hl (entry_changes (d := d) hsilent hcalls hentry ?_ ?_
      (show Separator.comma ≠ .colon by decide) (by simp; omega)) (fun h => by simp at h)
      fun _ new => ?_
    · exact fun _ => Cursor.endsExpression_of_mark rfl (.inl rfl)
    · exact fun _ => (separator_iff_of_blanks
        (Scan.blanks_of_delimiter rfl (by decide) (by decide))).2 (.comma rfl hblanks)
    · have ih := entries_change hsilent hcalls e' es hentries'
        d.before new n (by rw [hmore]; omega)
      rw [hmore] at ih
      rw [← hposition]
      exact ih

/-- Entries with commas between them, from the beginning of a text that does not begin with a
comment. -/
theorem entriesUpTo_change (hsilent : setting.environment.IsSilent)
    (hcalls : setting.environment.ResolvesBy f) (entries : List Entry)
    (hentries : ∀ e ∈ entries,
      setting.environment.IsEntry e.text e.effect ∧ e.text.head? ≠ some '#')
    (hn : 5 * ([','].intercalate (entries.map Entry.text)).length + 4 ≤ n) :
    ∃ d, ChangesHash (entriesUpTo setting n none false opening)
      ⟨[], [','].intercalate (entries.map Entry.text)⟩ h hs
      (Effect.applyAll f setting.source 0 h entries) () d := by
  obtain ⟨n, rfl⟩ : ∃ k, n = k + 2 := ⟨n - 2, by omega⟩
  rw [entriesUpTo]
  cases entries with
  | nil =>
    refine ⟨⟨[], []⟩, .of_gives_bind (.scan (Scan.blanks_of_rest_eq_nil rfl)) ?_⟩
    rw [Evaluation.entries]
    exact .get fun _ => .pure
  | cons e es =>
    obtain ⟨hentry, hsign⟩ := hentries e (by simp)
    obtain ⟨x, m, hx, hbegins⟩ := hentry.exists_mayBegin hsilent hcalls
    obtain ⟨m', hm'⟩ := exists_joined hx es
    let window : Cursor := ⟨[], [','].intercalate ((e :: es).map Entry.text)⟩
    have hblanks : Scan.blanks window = .ok false window :=
      Scan.blanks_of_peek? (congrArg List.head? hm') hbegins.1 (hbegins.ne (by decide))
        fun h => by simp [hx, h] at hsign
    exact ⟨_, .of_gives_bind (.scan hblanks) (entries_change hsilent hcalls e es
      (fun e' he => (hentries e' he).1) [] h _ (by omega))⟩

end
end Evaluation

open Evaluation

/-- A text that consists of entries with commas between them denotes what they make of the empty
hash, one after the other; if a call in it has no result or one of the wrong kind, the first such
call is reported at the entry. Inserting under a key that is there keeps the place of the key and
changes its value. -/
theorem Source.evaluateHash_entries {σ : Type} {env : Environment σ}
    {f : FunctionCall → Except Error Value} (hsilent : env.IsSilent) (hcalls : env.ResolvesBy f)
    {source : Source} {entries : List Entry}
    (hentries : ∀ e ∈ entries, env.IsEntry e.text e.effect ∧ e.text.head? ≠ some '#')
    (htext : source.text = String.ofList ([','].intercalate (entries.map Entry.text)))
    (inner : σ) :
    (source.evaluateHash env false inner).1 = Effect.applyAll f source 0 [] entries ∧
      ∀ (h : Hash) name v, (h.insert name v).keys =
        (if name ∈ h.keys then h.keys else h.keys ++ [name]) ∧
          ∀ other,
            (h.insert name v).get? other = if name = other then some v else h.get? other := by
  refine ⟨?_, fun h name v => ⟨h.keys_insert name v, fun other => h.get?_insert name other v⟩⟩
  let window : Cursor := ⟨[], [','].intercalate (entries.map Entry.text)⟩
  have hwindow : Cursor.ofText source.text.toList = window := by
    rw [htext, String.toList_ofList]
    rfl
  rw [Source.evaluateHash, hwindow]
  obtain ⟨d, hchanges⟩ : ∃ d, ChangesHash (entriesUpTo ⟨source, env⟩ (bound window.rest.length) none
      false window.position) window [] [] (Effect.applyAll f source 0 [] entries) () d :=
    entriesUpTo_change hsilent hcalls entries hentries (by simp only [bound, window]; omega)
  cases hresult : Effect.applyAll f source 0 [] entries with
  | error e =>
    rw [hresult] at hchanges
    exact run_eq_error_of_fails (.get fun _ => .bind (.buildHash (.within hsilent hchanges)))
  | ok h =>
    rw [hresult] at hchanges
    exact run_eq_ok_of_gives (.get fun _ => .bind (a := ((), h))
      (.buildHash (.within hsilent hchanges)) .pure)

/-- Each kind of entry: the key that is given again keeps its place. -/
theorem Source.evaluateHash_entries_kinds :
    ((Source.mk "a:1,m(),k():x,{b},a" none).evaluateHash (.ofFunction fun call =>
      .ok (if call.name = "m" then .hash [("c", .boolean false)] else .string "d")) false ()).1 =
        .ok [("a", .boolean true), ("c", .boolean false), ("d", .string "x"),
          ("b", .boolean true)] := by
  let entries : List Entry :=
    [⟨['a', ':', '1'], .insert "a" (.integer 1)⟩, ⟨['m', '(', ')'], .extendBy ⟨"m", []⟩⟩,
      ⟨['k', '(', ')', ':', 'x'], .insertUnder ⟨"k", []⟩ (.string "x")⟩,
      ⟨['{', 'b', '}'], .extend [("b", .boolean true)]⟩, ⟨['a'], .insert "a" (.boolean true)⟩]
  let env : Environment Unit := .ofFunction fun call =>
      .ok (if call.name = "m" then .hash [("c", .boolean false)] else .string "d")
  have hpair : env.IsEntry (['a'] ++ ':' :: ['1']) (.insert "a" (.integer 1)) :=
    .pair ⟨9, (), ⟨⟨['a'], []⟩, [], ()⟩, by with_unfolding_all rfl, rfl⟩
      ⟨9, (), ⟨⟨['1'], []⟩, [], ()⟩, by with_unfolding_all rfl, rfl⟩
  have hcall : env.IsEntry ['m', '(', ')'] (.extendBy ⟨"m", []⟩) :=
    .call ⟨9, (), ⟨⟨[')', '(', 'm'], []⟩, [], ()⟩, by with_unfolding_all rfl, rfl⟩
  have hcallPair : env.IsEntry (['k', '(', ')'] ++ ':' :: ['x'])
      (.insertUnder ⟨"k", []⟩ (.string "x")) :=
    .callPair ⟨9, (), ⟨⟨[')', '(', 'k'], []⟩, [], ()⟩, by with_unfolding_all rfl, rfl⟩
      ⟨9, (), ⟨⟨['x'], []⟩, [], ()⟩, by with_unfolding_all rfl, rfl⟩
  have hhash : env.IsEntry ['{', 'b', '}'] (.extend [("b", .boolean true)]) :=
    .hash ⟨9, (), ⟨⟨['}', 'b', '{'], []⟩, [], ()⟩, by with_unfolding_all rfl, rfl⟩
  have hflag : env.IsEntry ['a'] (.insert "a" (.boolean true)) :=
    .flag ⟨9, (), ⟨⟨['a'], []⟩, [], ()⟩, by with_unfolding_all rfl, rfl⟩
  have hentries : ∀ e ∈ entries, env.IsEntry e.text e.effect ∧ e.text.head? ≠ some '#' := by
    simp only [entries, List.forall_mem_cons]
    exact ⟨⟨hpair, by decide⟩, ⟨hcall, by decide⟩, ⟨hcallPair, by decide⟩, ⟨hhash, by decide⟩,
      ⟨hflag, by decide⟩, by simp⟩
  exact (evaluateHash_entries (Environment.ofFunction_isSilent _)
    (Environment.ofFunction_resolvesBy _) hentries rfl ()).1

end TextualData
