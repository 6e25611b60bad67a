import TextualData.Proofs.Progress
import TextualData.Proofs.ReadingSound
import TextualData.Proofs.Tokens

/-!
# What reads is evaluated

Evaluation with a silent environment gives the value of every phrase of the notation, and the bound
on its recursion is high enough for that: five for each character that is left. With
`followsReading` this says what the evaluation of a whole text gives (`single_eq_ok` and the same
for the entries of a hash and the items of a sequence).
-/

namespace TextualData

/-- The results that are related to a call are those that the environment gives. -/
def Environment.Resolves {σ : Type} (env : Environment σ)
    (resolves : FunctionCall → Value → Prop) : Prop :=
  ∀ call v, resolves call v → ∀ context inner, (env.call call context inner).1 = .ok v

namespace Evaluation

variable {σ α β : Type} {setting : Setting σ} {resolves : FunctionCall → Value → Prop}

/-- Whatever the state of the environment, the computation gives a result, moves the cursor from
one place to another and changes the hashes under construction as told. -/
def Gives (m : EvalM σ α) (c : Cursor) (hs : List Hash) (a : α) (d : Cursor)
    (ks : List Hash) : Prop :=
  ∀ inner, ∃ inner', m ⟨c, hs, inner⟩ = .ok a ⟨d, ks, inner'⟩

section
variable {m : EvalM σ α} {f : α → EvalM σ β} {a : α} {b : β} {c d e : Cursor}
  {hs ks ls : List Hash}

theorem Gives.pure : Gives (pure a : EvalM σ α) c hs a c hs :=
  fun inner => ⟨inner, rfl⟩

theorem Gives.bind (hm : Gives m c hs a d ks) (hf : Gives (f a) d ks b e ls) :
    Gives (m >>= f) c hs b e ls := by
  intro inner
  obtain ⟨inner', hrun⟩ := hm inner
  obtain ⟨inner'', hrun'⟩ := hf inner'
  exact ⟨inner'', bind_eq_ok.2 ⟨a, _, hrun, hrun'⟩⟩

theorem Gives.get {f : State σ → EvalM σ β} (hf : ∀ inner, Gives (f ⟨c, hs, inner⟩) c hs b d ks) :
    Gives (get >>= f) c hs b d ks := by
  intro inner
  obtain ⟨inner', hrun⟩ := hf inner inner
  exact ⟨inner', hrun⟩

theorem Gives.position : Gives (position : EvalM σ Nat) c hs c.position c hs :=
  fun inner => ⟨inner, rfl⟩

theorem Gives.scan {m : Scan α} (h : m c = .ok a d) : Gives (scan setting m) c hs a d hs :=
  fun inner => ⟨inner, scan_eq_ok.2 ⟨d, h, rfl⟩⟩

theorem Gives.next : Gives (Evaluation.scan setting Scan.next) c hs () c.next hs :=
  .scan (Scan.next_eq_ok.2 rfl)

theorem Gives.put {key : String} {v : Value} {h : Hash} :
    Gives (put key v : EvalM σ Unit) c (h :: hs) () c (h.insert key v :: hs) :=
  fun inner => ⟨inner, rfl⟩

/-- The entries of a hash are stored without a question, whether a call gave the hash or not. -/
theorem Gives.merge {entries h : Hash} {fromCall unresolved : Bool} {start : Nat} :
    Gives (storeBare setting (.hash entries) fromCall unresolved start) c (h :: hs) () c
      (h.merge entries :: hs) := by
  cases fromCall <;> exact fun inner => ⟨inner, rfl⟩

theorem Gives.ite_true {p : Prop} [Decidable p] {m' : EvalM σ α} (hp : p)
    (h : Gives m c hs a d ks) : Gives (if p then m else m') c hs a d ks := by
  rw [if_pos hp]
  exact h

theorem Gives.ite_false {p : Prop} [Decidable p] {m' : EvalM σ α} (hp : ¬p)
    (h : Gives m c hs a d ks) : Gives (if p then m' else m) c hs a d ks := by
  rw [if_neg hp]
  exact h

theorem Gives.moveCursor (place : State σ → Cursor) {d : Cursor}
    (h : ∀ inner, place ⟨c, hs, inner⟩ = d) :
    Gives (modify fun s => { s with cursor := place s } : EvalM σ Unit) c hs () d hs :=
  fun inner => ⟨inner, modify_eq_ok.2 (by rw [h])⟩

/-- With a silent environment a body gives its result also inside a scope. -/
theorem Gives.within (hsilent : setting.environment.IsSilent) {scope : Scope} {start : Nat}
    {body : Option Response → EvalM σ α} (h : Gives (body none) c hs a d ks) :
    Gives (within setting scope start body) c hs a d ks := by
  intro inner
  obtain ⟨inner₁, henter⟩ := notify_of_isSilent hsilent (.enter scope) start ⟨c, hs, inner⟩
  obtain ⟨inner₂, hbody⟩ := h inner₁
  obtain ⟨inner₃, hleave⟩ := notify_of_isSilent hsilent (.leave scope) d.position
    ⟨d, ks, inner₂⟩
  refine ⟨inner₃, bind_eq_ok.2 ⟨none, _, henter, ?_⟩⟩
  simp only [hbody, offset_cursor, hleave]

theorem Gives.buildHash {h : Hash} (hm : Gives m c ([] :: hs) a d (h :: hs)) :
    Gives (buildHash m) c hs (a, h) d hs := by
  intro inner
  obtain ⟨inner', hrun⟩ := hm inner
  exact ⟨inner', buildHash_eq_ok.2 ⟨_, hrun, rfl, rfl⟩⟩

theorem Gives.resolve (hresolves : setting.environment.Resolves resolves) {call : FunctionCall}
    {v : Value} (h : resolves call v) {position : Nat} :
    Gives (resolve setting call position) c hs v c hs :=
  fun _ => ⟨_, resolve_eq_ok.2 ⟨hresolves call v h _ _, rfl⟩⟩

end

/-- Evaluation with enough of a bound gives what the phrase denotes. -/
def Yields (setting : Setting σ) : Phrase → Cursor → Cursor → Prop
  | .value forced inKey v, c, c' => ∀ n hs, 5 * c.rest.length + 1 ≤ n →
    Gives (expression setting n forced inKey) c hs v c' hs
  | .items closing forced vs, c, c' => ∀ n opening hs, 5 * c.rest.length + 2 ≤ n →
    Gives (items setting n closing forced opening) c hs vs c' hs
  | .entries closing forced old new, c, c' => ∀ n opening hs, 5 * c.rest.length + 3 ≤ n →
    Gives (entries setting n closing forced opening) c (old :: hs) () c' (new :: hs)

section
variable {forced inKey broken : Bool} {closing : Option Char} {n opening : Nat}
  {hs : List Hash} {c c₁ c₂ c₃ : Cursor}

theorem Gives.itemsUpTo {vs : List Value} (blanks : Scan.blanks c = .ok broken c₁)
    (h : Yields setting (.items closing forced vs) c₁ c₂) (hn : 5 * c.rest.length + 3 ≤ n) :
    Gives (itemsUpTo setting n closing forced opening) c hs vs c₂ hs := by
  obtain ⟨n, rfl⟩ : ∃ k, n = k + 1 := ⟨n - 1, by omega⟩
  have hlen := (Scan.leads_of_blanks blanks).length_le
  rw [Evaluation.itemsUpTo]
  exact .bind (.scan blanks) (h n opening hs (by omega))

theorem Gives.entriesUpTo {old new : Hash} (blanks : Scan.blanks c = .ok broken c₁)
    (h : Yields setting (.entries closing forced old new) c₁ c₂)
    (hn : 5 * c.rest.length + 4 ≤ n) :
    Gives (entriesUpTo setting n closing forced opening) c (old :: hs) () c₂ (new :: hs) := by
  obtain ⟨n, rfl⟩ : ∃ k, n = k + 1 := ⟨n - 1, by omega⟩
  have hlen := (Scan.leads_of_blanks blanks).length_le
  rw [Evaluation.entriesUpTo]
  exact .bind (.scan blanks) (h n opening hs (by omega))

/-- What begins with neither a bracket nor a quotation is a raw literal or a token. -/
theorem expression_of_other {x : Char} {rest : List Char} (hrest : c.rest = x :: rest)
    (hbrace : x ≠ '{') (hbracket : x ≠ '[') (hquote : Literal.isQuotation x = false) {a : Value}
    {d : Cursor} {ks : List Hash} (h : Gives (match Literal.rawQuotation? c.rest with
      | some quotation =>
        return .string (String.ofList (← scan setting (Scan.raw quotation)))
      | none => unquoted setting n forced inKey) c hs a d ks) :
    Gives (expression setting (n + 1) forced inKey) c hs a d ks := by
  rw [Evaluation.expression]
  refine .get fun inner => ?_
  simp only [hrest, if_neg hbrace, if_neg hbracket, hquote]
  rw [hrest] at h
  exact h

theorem hash_yields (hsilent : setting.environment.IsSilent) {h : Hash}
    (opens : c.peek? = some '{') (blanks : Scan.blanks c.next = .ok broken c₁)
    (inner : Yields setting (.entries (some '}') forced [] h) c₁ c₂) :
    Yields setting (.value forced inKey (.hash h)) c c₂.next := by
  intro n hs hn
  have hlen := Cursor.next_length_lt opens
  obtain ⟨rest, hrest⟩ := Cursor.rest_of_peek? opens
  obtain ⟨n, rfl⟩ : ∃ k, n = k + 2 := ⟨n - 2, by omega⟩
  rw [Evaluation.expression]
  refine .get fun _ => ?_
  simp only [hrest, if_true]
  rw [Evaluation.hash]
  refine .get fun _ => .bind .next (.bind (a := (none, h)) (d := c₂) ?_ (.bind .next .pure))
  refine .buildHash (.bind .position (.within hsilent ?_))
  exact .ite_true rfl (.bind (.entriesUpTo blanks inner (by omega)) .pure)

theorem sequence_yields (hsilent : setting.environment.IsSilent) {vs : List Value}
    (opens : c.peek? = some '[') (blanks : Scan.blanks c.next = .ok broken c₁)
    (inner : Yields setting (.items (some ']') forced vs) c₁ c₂) :
    Yields setting (.value forced inKey (.sequence vs)) c c₂.next := by
  intro n hs hn
  have hlen := Cursor.next_length_lt opens
  obtain ⟨rest, hrest⟩ := Cursor.rest_of_peek? opens
  obtain ⟨n, rfl⟩ : ∃ k, n = k + 2 := ⟨n - 2, by omega⟩
  rw [Evaluation.expression]
  refine .get fun _ => ?_
  simp only [hrest, if_true, if_neg (show ¬ '[' = '{' by decide)]
  rw [Evaluation.sequence]
  refine .bind .position (.bind .next (.bind .position ?_))
  exact .bind (.within hsilent (.itemsUpTo blanks inner (by omega))) (.bind .next .pure)

theorem quoted_yields {quotation : Char} {l : List Char} (opens : c.peek? = some quotation)
    (isQuotation : Literal.isQuotation quotation) (literal : Scan.quoted quotation c = .ok l c₁) :
    Yields setting (.value forced inKey (.string (String.ofList l))) c c₁ := by
  intro n hs hn
  obtain ⟨rest, hrest⟩ := Cursor.rest_of_peek? opens
  obtain ⟨n, rfl⟩ : ∃ k, n = k + 1 := ⟨n - 1, by omega⟩
  have hbrace : quotation ≠ '{' := by rintro rfl; exact absurd isQuotation (by decide)
  have hbracket : quotation ≠ '[' := by rintro rfl; exact absurd isQuotation (by decide)
  rw [Evaluation.expression]
  refine .get fun _ => ?_
  simp only [hrest, if_neg hbrace, if_neg hbracket, if_pos isQuotation]
  exact .bind (.scan literal) .pure

theorem raw_yields {quotation : Char} {l : List Char}
    (opens : Literal.rawQuotation? c.rest = some quotation)
    (literal : Scan.raw quotation c = .ok l c₁) :
    Yields setting (.value forced inKey (.string (String.ofList l))) c c₁ := by
  intro n hs hn
  obtain ⟨n, rfl⟩ : ∃ k, n = k + 1 := ⟨n - 1, by omega⟩
  obtain ⟨rest, hrest, _⟩ := Literal.rawQuotation?_eq_some.1 opens
  refine expression_of_other hrest (by decide) (by decide) (by decide) ?_
  rw [opens]
  exact .bind (.scan literal) .pure

/-- Where no raw literal begins, a token that is not empty is evaluated as one. -/
theorem unquoted_gives {l rest : List Char} (noRaw : Literal.rawQuotation? c.rest = none)
    (split : Token.split inKey c.rest = (l, rest)) (nonempty : l ≠ []) {v : Value} {d : Cursor}
    (h : Gives (unquoted setting n forced inKey) c hs v d hs) :
    Gives (expression setting (n + 1) forced inKey) c hs v d hs := by
  obtain ⟨x, l, rfl⟩ := List.exists_cons_of_ne_nil nonempty
  obtain ⟨hx, m, hrest, _⟩ := Token.split_eq_cons.1 split
  refine expression_of_other hrest (Token.ne_of_starts hx (by decide) (by decide) (by decide))
    (Token.ne_of_starts hx (by decide) (by decide) (by decide)) ?_ ?_
  · rw [← Bool.not_eq_true, Literal.isQuotation_iff]
    rintro (hq | hq)
    · exact Token.ne_of_starts hx (by decide) (by decide) (by decide) hq
    · exact Token.ne_of_starts hx (by decide) (by decide) (by decide) hq
  · rw [noRaw]
    exact h

/-- The start of a token with what is passed up to the question whether it is a call. -/
theorem Gives.token {l rest : List Char} (split : Token.split inKey c.rest = (l, rest)) :
    Gives (Evaluation.scan setting (Scan.token inKey)) c hs l (c.pass l rest) hs :=
  .scan (Scan.token_eq_ok.2 ⟨rest, split, rfl⟩)

theorem token_yields {l rest : List Char} (noRaw : Literal.rawQuotation? c.rest = none)
    (split : Token.split inKey c.rest = (l, rest)) (nonempty : l ≠ [])
    (blanks : Scan.blanks (c.pass l rest) = .ok broken c₁) (noCall : c₁.peek? ≠ some '(') :
    Yields setting (.value forced inKey (tokenValue forced inKey l)) c (c.pass l rest) := by
  intro n hs hn
  have hlen := Token.length_lt split nonempty
  obtain ⟨n, rfl⟩ : ∃ k, n = k + 2 := ⟨n - 2, by omega⟩
  refine unquoted_gives noRaw split nonempty ?_
  rw [Evaluation.unquoted]
  refine .bind .position (.bind (.token split) (.ite_false (by simpa using nonempty) ?_))
  refine .get fun _ => .bind (.scan blanks) (.get fun _ => ?_)
  exact .ite_false noCall (.bind (.moveCursor _ fun _ => rfl) .pure)

/-- A call gives what is made of it after its parameters. -/
theorem call_gives (hsilent : setting.environment.IsSilent) {v : Value} {vs : List Value}
    {l rest : List Char} {broken' : Bool} (noRaw : Literal.rawQuotation? c.rest = none)
    (split : Token.split inKey c.rest = (l, rest)) (nonempty : l ≠ [])
    (blanks : Scan.blanks (c.pass l rest) = .ok broken c₁) (opens : c₁.peek? = some '(')
    (blanks' : Scan.blanks c₁.next = .ok broken' c₂)
    (inner : Yields setting (.items (some ')') forced vs) c₂ c₃)
    (result : Gives (if inKey then pure (.call (String.ofList l) vs)
      else resolve setting ⟨String.ofList l, vs⟩ c.position) c₃.next hs v c₃.next hs)
    (hn : 5 * c.rest.length + 1 ≤ n) :
    Gives (expression setting n forced inKey) c hs v c₃.next hs := by
  have hlen := (Scan.leads_of_blanks blanks).length_le
  have hlen' := Cursor.next_length_lt opens
  have hlen'' := Token.length_lt split nonempty
  simp only [Cursor.pass] at hlen
  obtain ⟨n, rfl⟩ : ∃ k, n = k + 2 := ⟨n - 2, by omega⟩
  refine unquoted_gives noRaw split nonempty ?_
  rw [Evaluation.unquoted]
  refine .bind .position (.bind (.token split) (.ite_false (by simpa using nonempty) ?_))
  refine .get fun _ => .bind (.scan blanks) (.get fun _ => .ite_true opens ?_)
  refine .bind .position (.bind .next (.bind (.within hsilent ?_) (.bind .next result)))
  exact .itemsUpTo blanks' inner (by omega)

theorem noItems_yields (closes : c.peek? = closing) :
    Yields setting (.items closing forced []) c c := by
  intro n opening hs hn
  obtain ⟨n, rfl⟩ : ∃ k, n = k + 1 := ⟨n - 1, by omega⟩
  rw [Evaluation.items]
  refine .get fun _ => ?_
  cases closing with
  | none =>
    simp only [closes]
    exact .pure
  | some x =>
    simp only [closes, if_true]
    exact .pure

theorem item_yields {v : Value} {vs : List Value} {separator : Separator}
    (begins : c.BeginsItem closing) (hfirst : Yields setting (.value forced false v) c c₁)
    (separated : Scan.separator closing (some .inList) c₁ = .ok separator c₂)
    (hless : c₁.rest.length < c.rest.length)
    (more : Reads resolves (.items closing forced vs) c₂ c₃)
    (hmore : Yields setting (.items closing forced vs) c₂ c₃) :
    Yields setting (.items closing forced (v :: vs)) c c₃ := by
  intro n opening hs hn
  obtain ⟨n, rfl⟩ : ∃ k, n = k + 1 := ⟨n - 1, by omega⟩
  obtain ⟨x, hpeek, hne, hcomma⟩ := begins
  have hlen := (Scan.leads_of_separator separated).length_le
  rw [Evaluation.items]
  refine .get fun _ => ?_
  simp only [hpeek]
  refine .ite_false hne (.ite_false hcomma (.bind (hfirst n hs (by omega)) ?_))
  refine .bind (.scan separated) ?_
  by_cases hclosing : separator = .closing
  · subst hclosing
    obtain ⟨rfl, rfl⟩ := more.items_eq_nil (peek?_of_separator_closing separated)
    exact .ite_true rfl .pure
  · exact .ite_false hclosing (.bind (hmore n opening hs (by omega)) .pure)

theorem noEntries_yields {h : Hash} (closes : c.peek? = closing) :
    Yields setting (.entries closing forced h h) c c := by
  intro n opening hs hn
  obtain ⟨n, rfl⟩ : ∃ k, n = k + 1 := ⟨n - 1, by omega⟩
  rw [Evaluation.entries]
  refine .get fun _ => ?_
  cases closing with
  | none =>
    simp only [closes]
    exact .pure
  | some x =>
    simp only [closes, if_true]
    exact .pure

/-- An entry is evaluated first, and then the entries after it. -/
theorem entry_yields {old mid new : Hash} {separator : Separator} (begins : c.BeginsItem closing)
    (hentry : ∀ n hs, 5 * c.rest.length + 2 ≤ n →
      Gives (entry setting n closing forced) c (old :: hs) separator c₁ (mid :: hs))
    (hcloses : separator = .closing → c₁.peek? = closing)
    (hless : c₁.rest.length < c.rest.length)
    (more : Reads resolves (.entries closing forced mid new) c₁ c₂)
    (hmore : Yields setting (.entries closing forced mid new) c₁ c₂) :
    Yields setting (.entries closing forced old new) c c₂ := by
  intro n opening hs hn
  obtain ⟨n, rfl⟩ : ∃ k, n = k + 1 := ⟨n - 1, by omega⟩
  obtain ⟨x, hpeek, hne, hcomma⟩ := begins
  rw [Evaluation.entries]
  refine .get fun _ => ?_
  simp only [hpeek]
  refine .ite_false hne (.ite_false hcomma (.bind (hentry n hs (by omega)) ?_))
  by_cases hclosing : separator = .closing
  · obtain ⟨rfl, rfl⟩ := more.entries_eq (hcloses hclosing)
    exact .ite_true hclosing .pure
  · exact .ite_false hclosing (hmore n opening hs (by omega))

/-- The key of an entry with what it stands for; the last part of the result matters for messages
only. -/
theorem Gives.resolveKey (hresolves : setting.environment.Resolves resolves)
    {key v : Value} {fromCall : Bool} (means : KeyMeans resolves key v fromCall) (start : Nat) :
    ∃ unresolved, Gives (resolveKey setting key start) c hs (v, fromCall, unresolved) c hs := by
  cases means with
  | call h => exact ⟨_, .bind (.resolve hresolves h) .pure⟩
  | plain h =>
    refine ⟨false, ?_⟩
    unfold Evaluation.resolveKey
    split
    · next name params => exact absurd rfl (h name params)
    · exact .pure

theorem Gives.keyValue (hsilent : setting.environment.IsSilent) {name : String} {v : Value}
    {start : Nat} {old : Hash} (hasValue : c.rest ≠ [])
    (second : Yields setting (.value forced false v) c c₁) (hn : 5 * c.rest.length + 2 ≤ n) :
    Gives (keyValue setting n name start forced) c (old :: hs) () c₁ (old.insert name v :: hs) := by
  obtain ⟨n, rfl⟩ : ∃ k, n = k + 1 := ⟨n - 1, by omega⟩
  rw [Evaluation.keyValue]
  refine .get fun _ => .ite_false (by simpa using hasValue) (.within hsilent ?_)
  exact .bind (second n _ (by omega)) .put

theorem Gives.pairEntry (hsilent : setting.environment.IsSilent)
    (hresolves : setting.environment.Resolves resolves) {fromCall : Bool} {old : Hash}
    {key v : Value} {name : String} {separator : Separator} {c₄ : Cursor}
    (first : Yields setting (.value false true key) c c₁)
    (means : KeyMeans resolves key (.string name) fromCall)
    (colon : Scan.separator closing none c₁ = .ok .colon c₂) (hasValue : c₂.rest ≠ [])
    (second : Yields setting (.value forced false v) c₂ c₃)
    (separated : Scan.separator closing (some .valueGiven) c₃ = .ok separator c₄)
    (hless : c₁.rest.length < c.rest.length) (hn : 5 * c.rest.length + 2 ≤ n) :
    Gives (entry setting n closing forced) c (old :: hs) separator c₄
      (old.insert name v :: hs) := by
  obtain ⟨n, rfl⟩ : ∃ k, n = k + 1 := ⟨n - 1, by omega⟩
  have hlen := (Scan.leads_of_separator colon).length_le
  obtain ⟨unresolved, hkey⟩ := Gives.resolveKey hresolves means c.position
  rw [Evaluation.entry]
  refine .bind .position (.bind (first n _ (by omega)) (.bind hkey (.bind (.scan colon) ?_)))
  refine .ite_true rfl (.bind .pure (.bind (.keyValue hsilent hasValue second (by omega)) ?_))
  exact .scan separated

/-- An entry without a colon, with what is stored for it. -/
theorem Gives.bareEntry (hresolves : setting.environment.Resolves resolves) {fromCall : Bool}
    {old new : Hash} {key v : Value} {separator : Separator}
    (first : Yields setting (.value false true key) c c₁)
    (means : KeyMeans resolves key v fromCall)
    (separated : Scan.separator closing none c₁ = .ok separator c₂) (noColon : separator ≠ .colon)
    (stored : ∀ unresolved, Gives (storeBare setting v fromCall unresolved c.position) c₂
      (old :: hs) () c₂ (new :: hs)) (hn : 5 * c.rest.length + 2 ≤ n) :
    Gives (entry setting n closing forced) c (old :: hs) separator c₂ (new :: hs) := by
  obtain ⟨n, rfl⟩ : ∃ k, n = k + 1 := ⟨n - 1, by omega⟩
  obtain ⟨unresolved, hkey⟩ := Gives.resolveKey hresolves means c.position
  rw [Evaluation.entry]
  refine .bind .position (.bind (first n _ (by omega)) (.bind hkey (.bind (.scan separated) ?_)))
  exact .ite_false noColon (.bind (stored unresolved) .pure)

end

/-- A phrase that reads is evaluated to what it denotes. -/
theorem yields_of_reads (hsilent : setting.environment.IsSilent)
    (hresolves : setting.environment.Resolves resolves) {phrase : Phrase} {c c' : Cursor}
    (h : Reads resolves phrase c c') : Yields setting phrase c c' := by
  -- Each constructor is one case of the recursion; the bound is enough because an expression
  -- takes at least one character.
  induction h with
  | hash opens blanks _ ih => exact hash_yields hsilent opens blanks ih
  | sequence opens blanks _ ih => exact sequence_yields hsilent opens blanks ih
  | quoted opens isQuotation literal => exact quoted_yields opens isQuotation literal
  | raw opens literal => exact raw_yields opens literal
  | token noRaw split nonempty blanks noCall =>
    exact token_yields noRaw split nonempty blanks noCall
  | call noRaw split nonempty blanks opens blanks' _ result ih =>
    intro n hs hn
    exact call_gives hsilent noRaw split nonempty blanks opens blanks' ih
      (.ite_false Bool.false_ne_true (.resolve hresolves result)) hn
  | keyCall noRaw split nonempty blanks opens blanks' _ ih =>
    intro n hs hn
    exact call_gives hsilent noRaw split nonempty blanks opens blanks' ih (.ite_true rfl .pure) hn
  | noItems closes => exact noItems_yields closes
  | item begins first separated more ih ih' =>
    exact item_yields begins ih separated first.length_lt more ih'
  | noEntries closes => exact noEntries_yields closes
  | pair begins first means colon hasValue second separated more ih ih' ih'' =>
    have hless := first.length_lt
    have hleads := ((Scan.leads_of_separator colon).trans (second.leads.trans
      (Scan.leads_of_separator separated))).length_le
    exact entry_yields begins
      (fun n hs => .pairEntry hsilent hresolves ih means colon hasValue ih' separated hless)
      (fun h => peek?_of_separator_closing (h ▸ separated)) (by omega) more ih''
  | flag begins first separated noColon more ih ih' =>
    have hless := first.length_lt
    have hleads := (Scan.leads_of_separator separated).length_le
    exact entry_yields begins
      (fun n hs => .bareEntry hresolves ih (.plain (by simp)) separated noColon
        fun _ => .within hsilent (.ite_false (by simp) .put))
      (fun h => peek?_of_separator_closing (h ▸ separated)) (by omega) more ih'
  | merge begins first means separated noColon more ih ih' =>
    have hless := first.length_lt
    have hleads := (Scan.leads_of_separator separated).length_le
    exact entry_yields begins
      (fun n hs => .bareEntry hresolves ih means separated noColon fun _ => .merge)
      (fun h => peek?_of_separator_closing (h ▸ separated)) (by omega) more ih'

end Evaluation
end TextualData
