import TextualData.Proofs.Skipping

/-!
# Skipped literals

A quoted literal that is evaluated is skipped to the same place, because the characters of an escape
after its first are neither a quotation nor a backslash. A raw literal that is skipped as a quoted
one ends where it should, unless a backslash stands at its end that no other takes with it.
-/

namespace TextualData

/-- Whether a text ends in a backslash that would take the next character with it. -/
def Literal.endsInEscape : List Char → Bool
  | [] => false
  | [x] => x == Text.backslash
  | x :: y :: l => if x = Text.backslash then endsInEscape l else endsInEscape (y :: l)

namespace Extent

variable {quotation : Char} {start : Nat} {before rest : List Char}

theorem quoted_quotation :
    quoted quotation start before (quotation :: rest) = .ok () ⟨quotation :: before, rest⟩ := by
  rw [quoted.eq_def]
  simp

theorem quoted_backslash (h : Literal.isQuotation quotation) (e : Char) :
    quoted quotation start before (Text.backslash :: e :: rest) =
      quoted quotation start (e :: Text.backslash :: before) rest := by
  rw [quoted.eq_def]
  simp [Literal.ne_backslash h]

theorem quoted_other {x : Char} (hquotation : x ≠ quotation) (hbackslash : x ≠ Text.backslash) :
    quoted quotation start before (x :: rest) = quoted quotation start (x :: before) rest := by
  rw [quoted.eq_def]
  simp [hquotation, hbackslash]

/-- Characters without a meaning of their own are passed over. -/
theorem quoted_plain {l : List Char} (h : ∀ x ∈ l, x ≠ quotation ∧ x ≠ Text.backslash) :
    quoted quotation start before (l ++ rest) =
      quoted quotation start (l.reverse ++ before) rest := by
  induction l generalizing before with
  | nil => rfl
  | cons x l ih =>
    obtain ⟨hquotation, hbackslash⟩ := h x (by simp)
    rw [List.cons_append, quoted_other hquotation hbackslash,
      ih fun y hy => h y (List.mem_cons_of_mem _ hy), List.reverse_cons, List.append_assoc]
    rfl

end Extent

namespace Extent

/-- A quoted literal that is evaluated is skipped to the same place. -/
theorem quoted_of_body {quotation : Char} (isQuotation : Literal.isQuotation quotation)
    (start start' : Nat) (before rest read : List Char) {l : List Char} {c : Cursor}
    (h : Literal.body quotation start before rest read = .ok l c) :
    quoted quotation start' before rest = .ok () c := by
  fun_induction Literal.body quotation start before rest read
  case case1 | case3 | case4 => simp at h
  case case2 =>
    simp only [EStateM.Result.ok.injEq] at h
    rw [quoted_quotation, h.2]
  case case5 before read e m t length he _ ih =>
    -- Skipping takes the backslash with one character; what else the escape takes is plain.
    obtain ⟨k, rfl, hplain⟩ := Literal.escape_plain he
    rw [quoted_backslash isQuotation, ← ih h]
    have hskip : quoted quotation start' (e :: Text.backslash :: before) (m.take k ++ m.drop k) =
        quoted quotation start' ((m.take k).reverse ++ e :: Text.backslash :: before) (m.drop k) :=
      quoted_plain fun x hx =>
        ⟨fun hq => hplain x hx (.inl (hq ▸ isQuotation)), fun hb => hplain x hx (.inr hb)⟩
    rw [List.take_append_drop] at hskip
    simpa using hskip
  case case6 hquotation hbackslash ih =>
    rw [quoted_other hquotation hbackslash]
    exact ih h

/-- Skipping the rest of a quoted literal takes its closing quotation at least. -/
theorem quoted_length_lt (quotation : Char) (start : Nat) (before rest : List Char) {c : Cursor}
    (h : quoted quotation start before rest = .ok () c) : c.rest.length < rest.length := by
  fun_induction quoted quotation start before rest
  case case1 | case3 => simp at h
  case case2 =>
    simp only [EStateM.Result.ok.injEq, true_and] at h
    simp [← h]
  case case4 ih | case5 ih =>
    have := ih h
    simp only [List.length_cons]
    omega

/-- Skipped as a quoted literal, the text of a raw one ends where it should exactly if no backslash
at its end takes the closing quotation with it. -/
theorem quoted_raw_iff {quotation : Char} (isQuotation : Literal.isQuotation quotation)
    (start : Nat) (before rest : List Char) {body : List Char} (h : quotation ∉ body) :
    quoted quotation start before (body ++ quotation :: rest) =
        .ok () ⟨quotation :: (body.reverse ++ before), rest⟩ ↔
      Literal.endsInEscape body = false := by
  fun_induction Literal.endsInEscape body generalizing before
  case case1 => simp [quoted_quotation]
  case case2 x =>
    by_cases hx : x = Text.backslash
    · subst hx
      simp only [List.cons_append, List.nil_append, quoted_backslash isQuotation, beq_self_eq_true,
        reduceCtorEq, iff_false]
      -- The closing quotation is lost, and no other one leads to the same place.
      intro hquoted
      exact absurd (quoted_length_lt _ _ _ _ hquoted) (Nat.lt_irrefl _)
    · have hquotation : x ≠ quotation := fun hq => h (by simp [hq])
      simp [quoted_other hquotation hx, quoted_quotation, hx]
  case case3 y l ih =>
    have hl : quotation ∉ l := fun hmem => h (by simp [hmem])
    have hskip := ih (y :: Text.backslash :: before) hl
    simpa [quoted_backslash isQuotation] using hskip
  case case4 x y l hx ih =>
    have hquotation : x ≠ quotation := fun hq => h (by simp [hq])
    have hl : quotation ∉ y :: l := fun hmem => h (List.mem_cons_of_mem _ hmem)
    have hskip := ih (x :: before) hl
    rw [List.cons_append, quoted_other hquotation hx]
    simpa using hskip

end Extent
end TextualData
