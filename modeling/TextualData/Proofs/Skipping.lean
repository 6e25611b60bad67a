import TextualData.Grammar.Extent
import TextualData.Proofs.Progress
import TextualData.Proofs.Tokens

/-!
# Skipping as a relation

`Skips` is what `Scan.extent` passes over, as a relation without a bound: an expression, or the rest
of a listing up to and with its closing bracket. `extent_eq_ok` says that the scan succeeds exactly
where the relation leads.
-/

namespace TextualData

theorem Literal.closing?_of_isQuotation {x : Char} (h : isQuotation x) :
    Extent.closing? x = none := by
  rcases isQuotation_iff.1 h with rfl | rfl <;> decide

namespace Token

variable {inKey : Bool} {x : Char} {l rest : List Char} {c : Cursor}

/-- The first character of a token. -/
theorem starts_of_split (split : split inKey c.rest = (l, rest)) (nonempty : l ≠ [])
    (hpeek : c.peek? = some x) : starts inKey x := by
  obtain ⟨y, l', rfl⟩ := List.exists_cons_of_ne_nil nonempty
  obtain ⟨hy, m, hrest, _⟩ := split_eq_cons.1 split
  obtain rfl : y = x := by simpa [Cursor.peek?, hrest] using hpeek
  exact hy

theorem closing?_of_split (split : Token.split inKey c.rest = (l, rest)) (nonempty : l ≠ [])
    (hpeek : c.peek? = some x) : Extent.closing? x = none := by
  have hne : ∀ y ∈ delimiters, y ≠ '+' → y ≠ ':' → x ≠ y :=
    fun y => ne_of_starts (starts_of_split split nonempty hpeek)
  simp [Extent.closing?, hne '{' (by decide), hne '[' (by decide), hne '<' (by decide),
    hne '(' (by decide)]

theorem not_isQuotation_of_split (split : Token.split inKey c.rest = (l, rest)) (nonempty : l ≠ [])
    (hpeek : c.peek? = some x) : ¬Literal.isQuotation x := by
  have hx := starts_of_split split nonempty hpeek
  rw [Literal.isQuotation_iff]
  rintro (rfl | rfl)
  · exact ne_of_starts hx (by decide) (by decide) (by decide) rfl
  · exact ne_of_starts hx (by decide) (by decide) (by decide) rfl

end Token

/-- The text between two places is passed over: as an expression, or as the rest of a listing with
its closing bracket, where that is given. -/
inductive Skips : Option Char → Cursor → Cursor → Prop where
  | listing {x closing : Char} {c c' : Cursor} (opens : c.peek? = some x)
      (closes : Extent.closing? x = some closing) (inner : Skips (some closing) c.next c') :
      Skips none c c'
  | raw {quotation : Char} {l : List Char} {c c' : Cursor}
      (opens : Literal.rawQuotation? c.rest = some quotation)
      (literal : Scan.raw quotation c = .ok l c') : Skips none c c'
  | quoted {quotation : Char} {c c' : Cursor} (opens : c.peek? = some quotation)
      (isQuotation : Literal.isQuotation quotation)
      (literal : Extent.quoted quotation c.position c.next.before c.next.rest = .ok () c') :
      Skips none c c'
  | token {l rest : List Char} {broken : Bool} {c c₁ : Cursor}
      (noRaw : Literal.rawQuotation? c.rest = none) (split : Token.split false c.rest = (l, rest))
      (nonempty : l ≠ []) (blanks : Scan.blanks (c.pass l rest) = .ok broken c₁)
      (noCall : c₁.peek? ≠ some '(') : Skips none c (c.pass l rest)
  /-- A token with the parameters of its call. -/
  | call {l rest : List Char} {broken : Bool} {c c₁ c' : Cursor}
      (noRaw : Literal.rawQuotation? c.rest = none) (split : Token.split false c.rest = (l, rest))
      (nonempty : l ≠ []) (blanks : Scan.blanks (c.pass l rest) = .ok broken c₁)
      (opens : c₁.peek? = some '(') (inner : Skips (some ')') c₁.next c') : Skips none c c'
  | close {closing : Char} {broken : Bool} {c c₁ : Cursor} (blanks : Scan.blanks c = .ok broken c₁)
      (closes : c₁.peek? = some closing) : Skips (some closing) c c₁.next
  /-- A mark between items, and the rest of the listing. -/
  | mark {closing x : Char} {broken : Bool} {c c₁ c' : Cursor}
      (blanks : Scan.blanks c = .ok broken c₁) (next : c₁.peek? = some x) (goesOn : x ≠ closing)
      (separates : Extent.separates x) (more : Skips (some closing) c₁.next c') :
      Skips (some closing) c c'
  /-- An expression, and the rest of the listing. -/
  | item {closing x : Char} {broken : Bool} {c c₁ c₂ c' : Cursor}
      (blanks : Scan.blanks c = .ok broken c₁) (next : c₁.peek? = some x) (goesOn : x ≠ closing)
      (noMark : Extent.separates x = false) (first : Skips none c₁ c₂)
      (more : Skips (some closing) c₂ c') : Skips (some closing) c c'

namespace Extent

theorem leads_of_quoted (quotation : Char) (start : Nat) (before rest : List Char) {c : Cursor}
    (h : quoted quotation start before rest = .ok () c) : (Cursor.mk before rest).Leads c := by
  fun_induction quoted quotation start before rest
  case case1 => simp at h
  case case2 =>
    simp only [EStateM.Result.ok.injEq, true_and] at h
    subst h
    exact Cursor.leads_cons _ _ _
  case case3 => simp at h
  case case4 ih =>
    exact (Cursor.leads_cons _ _ _).trans ((Cursor.leads_cons _ _ _).trans (ih h))
  case case5 ih => exact (Cursor.leads_cons _ _ _).trans (ih h)

variable {n : Nat} {c c' : Cursor} {closing : Char}

/-- What a scan with a given bound passes over. -/
structure FollowsSkips (n : Nat) : Prop where
  expression : ∀ {c c'}, expression n c = .ok () c' → Skips none c c'
  bracketed : ∀ {closing c c'}, bracketed n closing c = .ok () c' → Skips (some closing) c.next c'
  items : ∀ {closing start c c₁ c' broken}, items n closing start c₁ = .ok () c' →
    Scan.blanks c = .ok broken c₁ → Skips (some closing) c c'.next

theorem FollowsSkips.zero : FollowsSkips 0 where
  expression h := by simp [Extent.expression, Scan.refuse_ne_ok] at h
  bracketed h := by simp [Extent.bracketed, Scan.refuse_ne_ok] at h
  items h := by simp [Extent.items, Scan.refuse_ne_ok] at h

theorem expression_succ (ih : FollowsSkips n) (h : expression (n + 1) c = .ok () c') :
    Skips none c c' := by
  rw [expression, get_bind_run] at h
  cases hpeek : c.peek? with
  | none =>
    rw [hpeek] at h
    exact absurd h Scan.refuse_ne_ok
  | some x =>
    simp only [hpeek] at h
    cases hclosing : closing? x with
    | some closing =>
      simp only [hclosing] at h
      exact .listing hpeek hclosing (ih.bracketed h)
    | none =>
      cases hraw : Literal.rawQuotation? c.rest with
      | some quotation =>
        simp only [hclosing, hraw] at h
        obtain ⟨l, _, hl, h⟩ := bind_eq_ok.1 h
        obtain ⟨_, rfl⟩ := pure_eq_ok.1 h
        exact .raw hraw hl
      | none =>
        simp only [hclosing, hraw] at h
        by_cases hq : Literal.isQuotation x
        · exact .quoted hpeek hq ((congrFun (if_pos hq) c).symm.trans h)
        · replace h := (congrFun (if_neg hq) c).symm.trans h
          obtain ⟨l, _, ht, h⟩ := bind_eq_ok.1 h
          obtain ⟨rest, hsplit, rfl⟩ := Scan.token_eq_ok.1 ht
          obtain ⟨hne, h⟩ := Scan.ite_refuse_eq_ok.1 h
          have hne : l ≠ [] := by simpa using hne
          rw [get_bind_run] at h
          obtain ⟨broken, c₁, hb, h⟩ := bind_eq_ok.1 h
          rw [Scan.peek?_bind_run] at h
          by_cases hcall : c₁.peek? = some '('
          · rw [if_pos hcall] at h
            exact .call hraw hsplit hne hb hcall (ih.bracketed h)
          · rw [if_neg hcall] at h
            obtain rfl := set_eq_ok.1 h
            exact .token hraw hsplit hne hb hcall

theorem bracketed_succ (ih : FollowsSkips n) (h : bracketed (n + 1) closing c = .ok () c') :
    Skips (some closing) c.next c' := by
  rw [bracketed, get_bind_run, Scan.next_bind_run] at h
  obtain ⟨broken, c₁, hb, h⟩ := bind_eq_ok.1 h
  obtain ⟨_, c₂, hi, h⟩ := bind_eq_ok.1 h
  obtain rfl := Scan.next_eq_ok.1 h
  exact ih.items hi hb

theorem items_succ (ih : FollowsSkips n) {start : Nat} {c₁ : Cursor} {broken : Bool}
    (h : items (n + 1) closing start c₁ = .ok () c') (hb : Scan.blanks c = .ok broken c₁) :
    Skips (some closing) c c'.next := by
  rw [items] at h
  rw [Scan.peek?_bind_run] at h
  cases hpeek : c₁.peek? with
  | none =>
    rw [hpeek] at h
    exact absurd h Scan.refuseAt_ne_ok
  | some x =>
    simp only [hpeek, ite_run] at h
    split at h
    · next hx =>
      obtain ⟨_, rfl⟩ := pure_eq_ok.1 h
      exact .close hb (hpeek.trans (congrArg some hx))
    · next hx =>
      split at h
      · next hseparates =>
        rw [Scan.next_bind_run] at h
        obtain ⟨broken', c₂, hb', h⟩ := bind_eq_ok.1 h
        exact .mark hb hpeek hx hseparates (ih.items h hb')
      · next hseparates =>
        obtain ⟨_, c₂, he, h⟩ := bind_eq_ok.1 h
        obtain ⟨broken', c₃, hb', h⟩ := bind_eq_ok.1 h
        exact .item hb hpeek hx (by simpa using hseparates) (ih.expression he) (ih.items h hb')

theorem followsSkips : ∀ n, FollowsSkips n
  | 0 => .zero
  | n + 1 =>
    have ih := followsSkips n
    { expression := expression_succ ih
      bracketed := bracketed_succ ih
      items := items_succ ih }

end Extent

namespace Skips

variable {closing : Option Char} {c c' : Cursor}

theorem leads (h : Skips closing c c') : c.Leads c' := by
  induction h with
  | listing _ _ _ ih => exact (Cursor.Leads.next _).trans ih
  | raw _ literal =>
    exact (Cursor.Leads.next _).trans ((Cursor.Leads.next _).trans (Scan.raw_leads literal).1)
  | quoted _ _ literal => exact (Cursor.Leads.next _).trans (Extent.leads_of_quoted _ _ _ _ literal)
  | token _ split => exact Token.leads_pass split
  | call _ split _ blanks _ _ ih =>
    exact (Token.leads_pass split).trans ((Scan.leads_of_blanks blanks).trans
      ((Cursor.Leads.next _).trans ih))
  | close blanks => exact (Scan.leads_of_blanks blanks).trans (Cursor.Leads.next _)
  | mark blanks _ _ _ _ ih =>
    exact (Scan.leads_of_blanks blanks).trans ((Cursor.Leads.next _).trans ih)
  | item blanks _ _ _ _ _ ih ih' => exact (Scan.leads_of_blanks blanks).trans (ih.trans ih')

/-- An expression takes at least one character. -/
theorem length_lt (h : Skips none c c') : c'.rest.length < c.rest.length := by
  cases h with
  | listing opens _ inner =>
    exact Nat.lt_of_le_of_lt inner.leads.length_le (Cursor.next_length_lt opens)
  | raw _ literal =>
    have h₁ := ((Cursor.Leads.next c).trans (Cursor.Leads.next _)).length_le
    have h₂ := (Scan.raw_leads literal).2
    omega
  | quoted opens _ literal =>
    exact Nat.lt_of_le_of_lt (Extent.leads_of_quoted _ _ _ _ literal).length_le
      (Cursor.next_length_lt opens)
  | token _ split nonempty => exact Token.length_lt split nonempty
  | call _ split nonempty blanks _ inner =>
    have h₁ := Token.length_lt split nonempty
    have h₂ := ((Scan.leads_of_blanks blanks).trans
      ((Cursor.Leads.next _).trans inner.leads)).length_le
    simp only [Cursor.pass] at h₂
    omega

end Skips

namespace Extent

/-- A scan with enough of a bound passes over the text. -/
def Passes : Option Char → Cursor → Cursor → Prop
  | none, c, c' => ∀ n, 3 * c.rest.length + 1 ≤ n → expression n c = .ok () c'
  | some closing, c, c' => ∀ n start, 3 * c.rest.length + 2 ≤ n → ∃ broken c₁ e,
    Scan.blanks c = .ok broken c₁ ∧ items n closing start c₁ = .ok () e ∧ c' = e.next

section
variable {closing : Char} {c c₁ c' : Cursor} {broken : Bool}

theorem bracketed_passes {n : Nat} {x : Char} (opens : c.peek? = some x)
    (h : Passes (some closing) c.next c') (hn : 3 * c.rest.length ≤ n) :
    bracketed n closing c = .ok () c' := by
  have hlen := Cursor.next_length_lt opens
  obtain ⟨n, rfl⟩ : ∃ k, n = k + 1 := ⟨n - 1, by omega⟩
  obtain ⟨broken, c₁, e, hb, hi, rfl⟩ := h n c.position (by omega)
  rw [bracketed, get_bind_run, Scan.next_bind_run, bind_of_eq_ok hb, bind_of_eq_ok hi]
  rfl

theorem listing_passes {x : Char} (opens : c.peek? = some x)
    (closes : closing? x = some closing) (h : Passes (some closing) c.next c') :
    Passes none c c' := by
  intro n hn
  obtain ⟨n, rfl⟩ : ∃ k, n = k + 1 := ⟨n - 1, by omega⟩
  rw [expression, get_bind_run]
  simp only [opens, closes]
  exact bracketed_passes opens h (by omega)

theorem raw_passes {quotation : Char} {l : List Char}
    (opens : Literal.rawQuotation? c.rest = some quotation)
    (literal : Scan.raw quotation c = .ok l c') : Passes none c c' := by
  intro n hn
  obtain ⟨n, rfl⟩ : ∃ k, n = k + 1 := ⟨n - 1, by omega⟩
  obtain ⟨rest, hrest, _⟩ := Literal.rawQuotation?_eq_some.1 opens
  have hpeek : c.peek? = some 'r' := by simp [Cursor.peek?, hrest]
  rw [expression, get_bind_run]
  simp only [hpeek, show closing? 'r' = none by decide, opens]
  exact bind_eq_ok.2 ⟨_, _, literal, rfl⟩

theorem quoted_passes {quotation : Char} (opens : c.peek? = some quotation)
    (isQuotation : Literal.isQuotation quotation)
    (literal : quoted quotation c.position c.next.before c.next.rest = .ok () c') :
    Passes none c c' := by
  intro n hn
  obtain ⟨n, rfl⟩ : ∃ k, n = k + 1 := ⟨n - 1, by omega⟩
  have hclosing := Literal.closing?_of_isQuotation isQuotation
  have hraw : Literal.rawQuotation? c.rest = none := by
    rw [Option.eq_none_iff_forall_not_mem]
    intro q hq
    obtain ⟨rest, hrest, _⟩ := Literal.rawQuotation?_eq_some.1 hq
    obtain rfl : 'r' = quotation := by simpa [Cursor.peek?, hrest] using opens
    exact absurd isQuotation (by decide)
  rw [expression, get_bind_run]
  simp only [opens, hclosing, hraw]
  exact (congrFun (if_pos isQuotation) c).trans literal

/-- A token goes on with what is made of the character after it and its blanks. -/
theorem token_passes {n : Nat} {l rest : List Char} (noRaw : Literal.rawQuotation? c.rest = none)
    (split : Token.split false c.rest = (l, rest)) (nonempty : l ≠ [])
    (blanks : Scan.blanks (c.pass l rest) = .ok broken c₁)
    (h : (if c₁.peek? = some '(' then bracketed n ')' else set (c.pass l rest)) c₁ = .ok () c') :
    expression (n + 1) c = .ok () c' := by
  obtain ⟨x, l, rfl⟩ := List.exists_cons_of_ne_nil nonempty
  obtain ⟨_, m, hrest, _⟩ := Token.split_eq_cons.1 split
  have hpeek : c.peek? = some x := by simp [Cursor.peek?, hrest]
  have hclosing := Token.closing?_of_split split nonempty hpeek
  have hquote := Token.not_isQuotation_of_split split nonempty hpeek
  rw [expression, get_bind_run]
  simp only [hpeek, hclosing, noRaw]
  refine (congrFun (if_neg hquote) c).trans ?_
  refine bind_eq_ok.2 ⟨_, _, Scan.token_eq_ok.2 ⟨rest, split, rfl⟩, ?_⟩
  refine Scan.ite_refuse_eq_ok.2 ⟨by simp, ?_⟩
  rw [get_bind_run, bind_of_eq_ok blanks, Scan.peek?_bind_run]
  exact h

theorem close_passes (blanks : Scan.blanks c = .ok broken c₁) (closes : c₁.peek? = some closing) :
    Passes (some closing) c c₁.next := by
  intro n start hn
  obtain ⟨n, rfl⟩ : ∃ k, n = k + 1 := ⟨n - 1, by omega⟩
  refine ⟨broken, c₁, c₁, blanks, ?_, rfl⟩
  rw [items, Scan.peek?_bind_run]
  simp only [closes, if_true]
  rfl

theorem mark_passes {x : Char} (blanks : Scan.blanks c = .ok broken c₁)
    (next : c₁.peek? = some x) (goesOn : x ≠ closing) (hseparates : separates x)
    (more : Passes (some closing) c₁.next c') : Passes (some closing) c c' := by
  intro n start hn
  obtain ⟨n, rfl⟩ : ∃ k, n = k + 1 := ⟨n - 1, by omega⟩
  have hlen := (Scan.leads_of_blanks blanks).length_le
  have hlen' := Cursor.next_length_lt next
  obtain ⟨broken', c₂, e, hb, hi, rfl⟩ := more n start (by omega)
  refine ⟨broken, c₁, e, blanks, ?_, rfl⟩
  rw [items, Scan.peek?_bind_run]
  simp only [next, if_neg goesOn, hseparates, if_true]
  rw [Scan.next_bind_run, bind_of_eq_ok hb]
  exact hi

theorem item_passes {x : Char} {c₂ : Cursor} (blanks : Scan.blanks c = .ok broken c₁)
    (next : c₁.peek? = some x) (goesOn : x ≠ closing) (noMark : separates x = false)
    (hfirst : Passes none c₁ c₂) (hless : c₂.rest.length < c₁.rest.length)
    (more : Passes (some closing) c₂ c') : Passes (some closing) c c' := by
  intro n start hn
  obtain ⟨n, rfl⟩ : ∃ k, n = k + 1 := ⟨n - 1, by omega⟩
  have hlen := (Scan.leads_of_blanks blanks).length_le
  obtain ⟨broken', c₃, e, hb, hi, rfl⟩ := more n start (by omega)
  refine ⟨broken, c₁, e, blanks, ?_, rfl⟩
  rw [items, Scan.peek?_bind_run]
  simp only [next, if_neg goesOn, noMark, Bool.false_eq_true, if_false]
  exact bind_eq_ok.2 ⟨_, _, hfirst n (by omega), bind_eq_ok.2 ⟨_, _, hb, hi⟩⟩

end

theorem passes_of_skips {closing : Option Char} {c c' : Cursor} (h : Skips closing c c') :
    Passes closing c c' := by
  -- Each step of the relation needs one of the bound, and the first item of a listing a second
  -- one; what is skipped is shorter by a character at least.
  induction h with
  | listing opens closes _ ih => exact listing_passes opens closes ih
  | raw opens literal => exact raw_passes opens literal
  | quoted opens isQuotation literal => exact quoted_passes opens isQuotation literal
  | token noRaw split nonempty blanks noCall =>
    intro n hn
    obtain ⟨n, rfl⟩ : ∃ k, n = k + 1 := ⟨n - 1, by omega⟩
    refine token_passes noRaw split nonempty blanks ?_
    rw [if_neg noCall]
    rfl
  | call noRaw split nonempty blanks opens _ ih =>
    intro n hn
    have h₁ := Token.length_lt split nonempty
    have h₂ := (Scan.leads_of_blanks blanks).length_le
    simp only [Cursor.pass] at h₂
    obtain ⟨n, rfl⟩ : ∃ k, n = k + 1 := ⟨n - 1, by omega⟩
    refine token_passes noRaw split nonempty blanks ?_
    rw [if_pos opens]
    exact bracketed_passes opens ih (by omega)
  | close blanks closes => exact close_passes blanks closes
  | mark blanks next goesOn separates _ ih => exact mark_passes blanks next goesOn separates ih
  | item blanks next goesOn noMark first _ ih ih' =>
    exact item_passes blanks next goesOn noMark ih first.length_lt ih'

end Extent

/-- The scan of an expression succeeds exactly where skipping leads. -/
theorem extent_eq_ok {c c' : Cursor} : Scan.extent c = .ok () c' ↔ Skips none c c' := by
  constructor
  · exact (Extent.followsSkips _).expression
  · intro h
    exact Extent.passes_of_skips h _ (by omega)

end TextualData
