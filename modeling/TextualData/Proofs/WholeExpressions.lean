import TextualData.Proofs.Deferral

/-!
# Texts that are one expression

A text is one expression if reading an expression from its beginning takes it up as a whole. Such
a text reads the same between any other characters, if those after it end it: no token goes on with
them, and they open no call.
-/

namespace TextualData

open Evaluation

variable {σ : Type} {env : Environment σ} {f : FunctionCall → Except Error Value}
  {forced inKey : Bool} {l : List Char} {v : Value} {c : Cursor}

/-- Reading an expression from the beginning of the text, maybe as a key, gives the value and leaves
nothing of the text. -/
def Environment.ReadsAll (env : Environment σ) (forced inKey : Bool) (l : List Char)
    (v : Value) : Prop :=
  ∃ n inner t, expression ⟨⟨String.ofList l, none⟩, env⟩ n forced inKey ⟨.ofText l, [], inner⟩ =
    .ok v t ∧ t.cursor.rest = []

/-- An expression that has come to the place ends there. -/
def Cursor.EndsExpression (c : Cursor) (inKey : Bool) : Prop :=
  c.CutsToken inKey ∧ c.OpensNoCall

theorem Cursor.endsExpression_of_rest_eq_nil (h : c.rest = []) : c.EndsExpression inKey :=
  ⟨fun x hx => by simp [Cursor.peek?, h] at hx, false, c, Scan.blanks_of_rest_eq_nil h,
    by simp [Cursor.peek?, h]⟩

/-- A comma and a bracket that closes a listing end every expression, a colon ends a key. -/
theorem Cursor.endsExpression_of_mark {x : Char} (hpeek : c.peek? = some x)
    (hx : x = ',' ∨ ClosesListing x ∨ x = ':' ∧ inKey = true) : c.EndsExpression inKey := by
  have hmark : x ∈ Token.delimiters ∧ x ≠ '<' ∧ x ≠ '(' ∧ Literal.isQuotation x = false ∧
      Token.continues inKey x = false := by
    rcases hx with rfl | (rfl | rfl | rfl) | ⟨rfl, rfl⟩
    any_goals cases inKey
    all_goals decide
  obtain ⟨hdelimiter, hangle, hopen, hquotation, hends⟩ := hmark
  refine ⟨fun y hy => ?_, false, c, Scan.blanks_of_delimiter hpeek hdelimiter hangle, ?_⟩
  · obtain rfl := Option.some.inj (hpeek.symm.trans hy)
    exact ⟨hends, by simp [hquotation]⟩
  · simpa [hpeek] using hopen

/-- A text that is one expression reads the same wherever it ends. -/
theorem Environment.ReadsAll.reads (h : env.ReadsAll forced inKey l v) (hsilent : env.IsSilent)
    (hcalls : env.ResolvesBy f) {before rest : List Char}
    (ends : Cursor.EndsExpression ⟨l.reverse ++ before, rest⟩ inKey) :
    Reads (Environment.Gives f) (.value forced inKey v) ⟨before, l ++ rest⟩
      ⟨l.reverse ++ before, rest⟩ := by
  obtain ⟨n, inner, t, hrun, hend⟩ := h
  obtain ⟨hread, -⟩ := (followsReading hsilent hcalls.resolvesWithin n).expression hrun
  obtain ⟨m, hm⟩ := hread.leads
  obtain rfl : l = m := by simpa [Cursor.ofText, hend] using hm.1
  exact hread.of_sameSpan ⟨l, hm, rfl, rfl⟩ ⟨.inr ends.1, ends.2⟩

/-- The first character of a text that is one expression. -/
theorem Environment.ReadsAll.exists_mayBegin (h : env.ReadsAll forced inKey l v)
    (hsilent : env.IsSilent) (hcalls : env.ResolvesBy f) :
    ∃ x m, l = x :: m ∧ Value.MayBegin x := by
  have hend : Cursor.EndsExpression ⟨l.reverse ++ [], []⟩ inKey :=
    Cursor.endsExpression_of_rest_eq_nil rfl
  have hread := h.reads hsilent hcalls hend
  obtain ⟨x, hpeek, hx⟩ := hread.exists_mayBegin
  obtain ⟨m, hm⟩ := Cursor.rest_of_peek? hpeek
  exact ⟨x, m, by simpa using hm, hx⟩

/-- Within a line, no blanks begin where a text that is one expression begins. -/
theorem Environment.ReadsAll.blanks (h : env.ReadsAll forced inKey l v) (hsilent : env.IsSilent)
    (hcalls : env.ResolvesBy f) {before rest : List Char}
    (hline : Cursor.IsInLine ⟨before, l ++ rest⟩) :
    Scan.blanks ⟨before, l ++ rest⟩ = .ok false ⟨before, l ++ rest⟩ := by
  obtain ⟨x, m, rfl, hx⟩ := h.exists_mayBegin hsilent hcalls
  exact Cursor.blanks_of_mayBegin rfl hx hline

end TextualData
