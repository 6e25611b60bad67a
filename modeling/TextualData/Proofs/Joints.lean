import TextualData.Proofs.WholeExpressions

/-!
# What stands between two items

Between two items stand blanks and comments, with one comma among them; without a comma they need
a line break. Blanks lead over such a joint up to its comma or to the item after it, and the joint
ends the item before it, which is never at the beginning of its line.
-/

namespace TextualData

/-- Blanks and comments between two items: with one comma, or with a line break outside of
comments that have a closing mark. -/
inductive IsJoint : List Char → (comma : Bool) → Prop where
  | comma {l m : List Char} {broken broken' : Bool} (before : Blanks.Gap false l broken)
      (after : Blanks.Gap false m broken') : IsJoint (l ++ ',' :: m) true
  | lineBreak {l : List Char} (gap : Blanks.Gap false l true) : IsJoint l false

/-- What no token goes on with, and is no quotation. -/
def Token.Cuts (x : Char) : Prop :=
  continues false x = false ∧ Literal.isQuotation x = false

/-- A gap behind something in its line begins with what ends a token. -/
theorem Blanks.Gap.exists_cuts {l : List Char} {broken : Bool} (h : Gap false l broken) :
    l = [] ∧ broken = false ∨ ∃ x m, l = x :: m ∧ Token.Cuts x := by
  cases h with
  | nil => exact .inl ⟨rfl, rfl⟩
  | @blank _ _ x l isBlank _ =>
    refine .inr ⟨x, l, rfl, Token.continues_eq_false (.inl isBlank) ?_, ?_⟩
    · rintro rfl
      exact absurd isBlank (by decide)
    · rw [← Bool.not_eq_true]
      intro hquotation
      simp [Literal.not_isBlank (.inl hquotation)] at isBlank
  | blockComment comment _ =>
    obtain ⟨-, m, rfl, -⟩ := comment
    exact .inr ⟨'<', _, rfl, by decide, by decide⟩

/-- A joint begins with what ends a token. -/
theorem IsJoint.exists_cuts {l : List Char} {comma : Bool} (h : IsJoint l comma) :
    ∃ x m, l = x :: m ∧ Token.Cuts x := by
  cases h with
  | comma before after =>
    obtain ⟨rfl, -⟩ | ⟨x, m, rfl, hx⟩ := before.exists_cuts
    · exact ⟨',', _, rfl, by decide, by decide⟩
    · exact ⟨x, _, rfl, hx⟩
  | lineBreak gap =>
    obtain ⟨-, hbroken⟩ | ⟨x, m, rfl, hx⟩ := gap.exists_cuts
    · simp at hbroken
    · exact ⟨x, m, rfl, hx⟩

variable {resolves : FunctionCall → Value → Prop} {before l rest : List Char} {c c' : Cursor}

/-- No character of a token is blank. -/
theorem Token.isBlank_of_split {inKey : Bool} {m : List Char} (h : split inKey m = (l, rest)) :
    ∀ x ∈ l, Text.isBlank x = false := by
  cases l with
  | nil => simp
  | cons y l =>
    obtain ⟨hy, m, -, rfl, -⟩ := split_eq_cons.1 h
    intro x hx
    rcases List.mem_cons.1 hx with rfl | hx
    · exact isBlank_of_starts hy
    · have hcontinues := List.all_eq_true.1 List.all_takeWhile x hx
      cases inKey with
      | true => exact isBlank_of_continues (continues_of_inKey hcontinues)
      | false => exact isBlank_of_continues hcontinues

theorem Cursor.isInLine_next {x : Char} (hpeek : c.peek? = some x) (hx : Text.isBlank x = false) :
    c.next.IsInLine := by
  obtain ⟨rest, hrest⟩ := rest_of_peek? hpeek
  rw [next_of_rest hrest]
  exact isInLine_cons hx _ _

/-- An expression ends behind something in its line. -/
theorem Reads.isInLine {forced inKey : Bool} {v : Value}
    (h : Reads resolves (.value forced inKey v) c c') : c'.IsInLine := by
  cases h with
  | hash _ _ inner => exact Cursor.isInLine_next inner.entries_end (by decide)
  | sequence _ _ inner | call _ _ _ _ _ _ inner | keyCall _ _ _ _ _ _ inner =>
    exact Cursor.isInLine_next inner.items_end (by decide)
  | quoted _ isQuotation literal =>
    obtain ⟨k, -, hbefore, -⟩ := Literal.body_of_body isQuotation _ _ _ _ literal
    rw [Cursor.IsInLine, hbefore]
    exact Cursor.isInLine_cons (Literal.not_isBlank (.inl isQuotation)) _ []
  | raw opens literal =>
    obtain ⟨_, _, isQuotation⟩ := Literal.rawQuotation?_eq_some.1 opens
    obtain ⟨rest, -, rfl⟩ := Scan.raw_eq_ok.1 literal
    rw [Cursor.IsInLine, Cursor.pass, List.reverse_append]
    exact Cursor.isInLine_cons (Literal.not_isBlank (.inl isQuotation)) _ []
  | @token _ _ l rest broken _ c₁ _ split nonempty =>
    -- The last character of a token is no blank, like all others.
    obtain ⟨y, m, hl⟩ := List.exists_cons_of_ne_nil (List.reverse_ne_nil_iff.2 nonempty)
    have hy : Text.isBlank y = false :=
      Token.isBlank_of_split split y (List.mem_reverse.1 (by simp [hl]))
    rw [Cursor.IsInLine, Cursor.pass, hl]
    exact Cursor.isInLine_cons hy _ []

/-- Something in a line stands there whatever comes before the line. -/
theorem Text.isLineBlankBefore_append_eq_false {l : List Char} (h : isLineBlankBefore l = false)
    (before : List Char) : isLineBlankBefore (l ++ before) = false := by
  induction l with
  | nil => simp at h
  | cons x l ih =>
    rw [isLineBlankBefore_cons, Bool.or_eq_false_iff, Bool.and_eq_false_iff] at h
    rw [List.cons_append, isLineBlankBefore_cons, Bool.or_eq_false_iff, Bool.and_eq_false_iff]
    exact ⟨h.1, h.2.imp_right ih⟩

/-- A text that is one expression ends behind something in its line. -/
theorem Environment.ReadsAll.isInLine {σ : Type} {env : Environment σ}
    {f : FunctionCall → Except Error Value} {forced inKey : Bool} {v : Value}
    (h : env.ReadsAll forced inKey l v) (hsilent : env.IsSilent) (hcalls : env.ResolvesBy f)
    (before rest : List Char) : Cursor.IsInLine ⟨l.reverse ++ before, rest⟩ := by
  have hend : Cursor.EndsExpression ⟨l.reverse ++ [], []⟩ inKey :=
    Cursor.endsExpression_of_rest_eq_nil rfl
  have hline := (h.reads hsilent hcalls hend).isInLine
  rw [List.append_nil] at hline
  exact Text.isLineBlankBefore_append_eq_false hline before

section
variable {broken : Bool} (hline : Cursor.IsInLine ⟨before, l ++ rest⟩)
  (hstop : Scan.blanks ⟨l.reverse ++ before, rest⟩ = .ok false ⟨l.reverse ++ before, rest⟩)
include hline hstop

/-- Blanks lead over a joint without a comma. -/
theorem IsJoint.blanks_lineBreak (h : IsJoint l false) :
    Scan.blanks ⟨before, l ++ rest⟩ = .ok true ⟨l.reverse ++ before, rest⟩ := by
  cases h with
  | lineBreak gap =>
    have hline : Text.isLineBlankBefore before = false := hline
    exact Scan.blanks_gap (c := ⟨before, l ++ rest⟩) rfl (by rwa [hline]) hstop

/-- Blanks lead to the comma of a joint, and after it to the end of the joint. -/
theorem IsJoint.blanks_comma (h : IsJoint l true) : ∃ broken broken' c₁,
    Scan.blanks ⟨before, l ++ rest⟩ = .ok broken c₁ ∧ c₁.peek? = some ',' ∧
      Scan.blanks c₁.next = .ok broken' ⟨l.reverse ++ before, rest⟩ := by
  cases h with
  | @comma k m broken broken' hk hm =>
    have hline : Text.isLineBlankBefore before = false := hline
    have hmark : Scan.blanks ⟨k.reverse ++ before, ',' :: (m ++ rest)⟩ =
        .ok false ⟨k.reverse ++ before, ',' :: (m ++ rest)⟩ :=
      Scan.blanks_of_delimiter rfl (by decide) (by decide)
    have hcomma : Text.isLineBlankBefore (',' :: (k.reverse ++ before)) = false :=
      Text.isLineBlankBefore_of_not_isBlank (by decide) _
    refine ⟨broken || false, broken' || false, ⟨k.reverse ++ before, ',' :: (m ++ rest)⟩, ?_, rfl,
      ?_⟩
    · rw [List.append_assoc]
      exact Scan.blanks_gap (c := ⟨before, k ++ ',' :: (m ++ rest)⟩) rfl (by rwa [hline]) hmark
    · have hend : (k ++ ',' :: m).reverse ++ before =
          m.reverse ++ ',' :: (k.reverse ++ before) := by simp
      rw [hend] at hstop ⊢
      exact Scan.blanks_gap (c := ⟨',' :: (k.reverse ++ before), m ++ rest⟩) rfl (by rwa [hcomma])
        hstop

end

/-- No blanks begin where an item begins that is no comment. -/
theorem Scan.blanks_of_begins {x : Char} (hx : Value.MayBegin x) (hsign : x ≠ '#')
    (before rest : List Char) :
    Scan.blanks ⟨before, x :: rest⟩ = .ok false ⟨before, x :: rest⟩ :=
  blanks_of_peek? rfl hx.1 (hx.ne (by decide)) fun h => absurd h hsign

namespace IsJoint

variable {comma : Bool} {x : Char} {closing : Option Char}
  (hline : Cursor.IsInLine ⟨before, l ++ x :: rest⟩) (hx : Value.MayBegin x) (hsign : x ≠ '#')
include hline hx hsign

/-- A joint ends the item before it. -/
theorem endsExpression (h : IsJoint l comma) :
    Cursor.EndsExpression ⟨before, l ++ x :: rest⟩ false := by
  have hstop := Scan.blanks_of_begins hx hsign (l.reverse ++ before) rest
  obtain ⟨y, m, rfl, hcuts, hquotation⟩ := h.exists_cuts
  refine ⟨fun z hz => ?_, ?_⟩
  · obtain rfl : y = z := Option.some.inj hz
    exact ⟨hcuts, by simp [hquotation]⟩
  · cases comma with
    | true =>
      obtain ⟨broken, -, c₁, hblanks, hcomma, -⟩ := h.blanks_comma hline hstop
      exact ⟨broken, c₁, hblanks, by simp [hcomma]⟩
    | false =>
      refine ⟨true, _, h.blanks_lineBreak hline hstop, fun hopen => ?_⟩
      exact hx.ne (by decide) (Option.some.inj hopen)

/-- A joint separates two items if it has a comma, or the second begins with neither a plus sign nor
a colon. -/
theorem separates (h : IsJoint l comma) (hclosing : closing ≠ some x)
    (hmark : comma = false → x ≠ '+' ∧ x ≠ ':') :
    Scan.separator closing (some .inList) ⟨before, l ++ x :: rest⟩ =
      .ok .comma ⟨l.reverse ++ before, x :: rest⟩ := by
  have hstop := Scan.blanks_of_begins hx hsign (l.reverse ++ before) rest
  cases comma with
  | true =>
    obtain ⟨broken, broken', c₁, hblanks, hcomma, hblanks'⟩ := h.blanks_comma hline hstop
    exact (separator_iff_of_blanks hblanks).2 (.comma hcomma hblanks')
  | false =>
    obtain ⟨hplus, hcolon⟩ := hmark rfl
    refine (separator_iff_of_blanks (h.blanks_lineBreak hline hstop)).2
      (.lineBreak rfl hclosing ?_ rfl)
    simp [hplus, hcolon, hx.ne (y := ',') (by decide), hx.ne (y := ';') (by decide),
      hx.ne (y := '=') (by decide)]

/-- Before a plus sign or a colon a line break is no comma, and the sign is refused. -/
theorem refuses (h : IsJoint l false) (hmark : x = '+' ∨ x = ':') :
    Scan.separator closing (some .inList) ⟨before, l ++ x :: rest⟩ =
      .error ⟨if x = '+' then .union else .colon .inList, Text.byteSize (l.reverse ++ before)⟩
        ⟨l.reverse ++ before, x :: rest⟩ := by
  have hblanks := h.blanks_lineBreak hline (Scan.blanks_of_begins hx hsign _ rest)
  rcases hmark with rfl | rfl
  · exact separator_of_plus hblanks rfl
  · exact separator_of_colon hblanks rfl

end IsJoint

end TextualData
