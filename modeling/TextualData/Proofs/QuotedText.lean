import TextualData.Proofs.Literals
import TextualData.Text.Blank
import TextualData.Text.Quoted

/-!
# Quoted text reads back

Reading a literal that `Text.quote` has written gives the text that was quoted, whatever stands
before and after it. The quoted text has no line break in it.
-/

namespace TextualData

namespace Text

/-- The digits of an escape have their values. -/
theorem hexValue?_hexDigit : ∀ n < 16, hexValue? (hexDigit n) = some n := by
  decide

theorem scalar?_toNat (x : Char) : scalar? x.toNat = some x := by
  have hvalid : x.toNat.isValidChar := x.valid
  simp [scalar?, hvalid, Char.ofNat_toNat]

theorem not_isLineBreak_hexDigit : ∀ n < 16, isLineBreak (hexDigit n) = false := by
  decide

/-- The short escapes. -/
theorem shortEscape?_eq_some {x e : Char} (h : shortEscape? x = some e) :
    x = '\n' ∧ e = 'n' ∨ x = '\r' ∧ e = 'r' ∨ x = '\t' ∧ e = 't' ∨ x = backspace ∧ e = 'b' ∨
      x = formFeed ∧ e = 'f' := by
  unfold shortEscape? at h
  split at h
  · next hx => exact .inl ⟨hx, (Option.some.inj h).symm⟩
  split at h
  · next hx => exact .inr (.inl ⟨hx, (Option.some.inj h).symm⟩)
  split at h
  · next hx => exact .inr (.inr (.inl ⟨hx, (Option.some.inj h).symm⟩))
  split at h
  · next hx => exact .inr (.inr (.inr (.inl ⟨hx, (Option.some.inj h).symm⟩)))
  split at h
  · next hx => exact .inr (.inr (.inr (.inr ⟨hx, (Option.some.inj h).symm⟩)))
  · simp at h

/-- A line break is quoted by a letter. -/
theorem not_isLineBreak_of_mem_quoteChar {x y : Char} (h : y ∈ quoteChar x) :
    isLineBreak y = false := by
  unfold quoteChar at h
  split at h
  · next hself =>
    simp only [List.mem_cons, List.not_mem_nil, or_false] at h
    rcases h with rfl | rfl
    · decide
    · rcases hself with rfl | rfl <;> decide
  · split at h
    · next hshort =>
      simp only [List.mem_cons, List.not_mem_nil, or_false] at h
      rcases shortEscape?_eq_some hshort with
        ⟨_, rfl⟩ | ⟨_, rfl⟩ | ⟨_, rfl⟩ | ⟨_, rfl⟩ | ⟨_, rfl⟩ <;> rcases h with rfl | rfl <;> decide
    · next hshort =>
      split at h
      · simp only [hexEscape, List.mem_cons, List.not_mem_nil, or_false] at h
        rcases h with rfl | rfl | rfl | rfl | rfl | rfl
        · decide
        · decide
        · decide
        · decide
        · exact not_isLineBreak_hexDigit _ (by omega)
        · exact not_isLineBreak_hexDigit _ (by omega)
      · next hcontrol =>
        obtain rfl := List.mem_singleton.1 h
        rw [isLineBreak, Bool.or_eq_false_iff]
        constructor <;>
        · refine beq_false_of_ne ?_
          rintro rfl
          exact hcontrol (by decide)

theorem toList_quote (s : String) : (quote s).toList =
    quotationMark :: (s.toList.flatMap quoteChar ++ [quotationMark]) :=
  String.toList_ofList

/-- A quoted text is on one line. -/
theorem not_isLineBreak_of_mem_quote {s : String} {x : Char} (h : x ∈ (quote s).toList) :
    isLineBreak x = false := by
  simp only [toList_quote, List.mem_cons, List.mem_append, List.mem_flatMap, List.not_mem_nil,
    or_false] at h
  rcases h with rfl | ⟨y, _, hy⟩ | rfl
  · decide
  · exact not_isLineBreak_of_mem_quoteChar hy
  · decide

end Text

namespace Literal

variable {start : Nat} {before rest read : List Char}

/-- A control character is what its escape means. -/
theorem escape_hexEscape {x : Char} (h : x.toNat < 0x20) :
    escape 'u' ('0' :: '0' :: Text.hexDigit (x.toNat / 16) :: Text.hexDigit (x.toNat % 16) ::
      rest) = .text [x] 5 := by
  have hrun : hexRun ('0' :: '0' :: Text.hexDigit (x.toNat / 16) ::
      Text.hexDigit (x.toNat % 16) :: rest) = [0, 0, x.toNat / 16, x.toNat % 16] := by
    simp [hexRun, Text.hexValue?_hexDigit (x.toNat / 16) (by omega),
      Text.hexValue?_hexDigit (x.toNat % 16) (by omega), show Text.hexValue? '0' = some 0 by decide]
  have hnumber : hexNumber [0, 0, x.toNat / 16, x.toNat % 16] = x.toNat := by
    simp [hexNumber]
    omega
  simp [escape, show named? 'u' = none by decide, hrun, hnumber, Text.scalar?_toNat]

/-- One character of a quoted text. -/
theorem body_quoteChar (x : Char) :
    body Text.quotationMark start before (Text.quoteChar x ++ rest) read =
      body Text.quotationMark start ((Text.quoteChar x).reverse ++ before) rest (x :: read) := by
  have hquotation : isQuotation Text.quotationMark := by decide
  by_cases hself : x = Text.backslash ∨ x = Text.quotationMark
  · have hnamed : escape x rest = .text [x] 1 := by
      rcases hself with rfl | rfl <;> rfl
    simp [Text.quoteChar, hself, body_text hquotation hnamed]
  · cases hshort : Text.shortEscape? x with
    | some e =>
      have hnamed : escape e rest = .text [x] 1 := by
        rcases Text.shortEscape?_eq_some hshort with
          ⟨rfl, rfl⟩ | ⟨rfl, rfl⟩ | ⟨rfl, rfl⟩ | ⟨rfl, rfl⟩ | ⟨rfl, rfl⟩ <;> rfl
      simp [Text.quoteChar, hself, hshort, body_text hquotation hnamed]
    | none =>
      by_cases hcontrol : x.toNat < 0x20
      · simp [Text.quoteChar, hself, hshort, hcontrol, Text.hexEscape,
          body_text hquotation (escape_hexEscape hcontrol)]
      · simp only [not_or] at hself
        simp [Text.quoteChar, hself, hshort, hcontrol, body_plain hself.2 hself.1]

/-- A quoted text and the quotation mark after it. -/
theorem body_quoted (l : List Char) :
    body Text.quotationMark start before
        (l.flatMap Text.quoteChar ++ Text.quotationMark :: rest) read =
      .ok (read.reverse ++ l)
        ⟨Text.quotationMark :: ((l.flatMap Text.quoteChar).reverse ++ before), rest⟩ := by
  induction l generalizing before read with
  | nil => simp [body_quotation]
  | cons x l ih =>
    rw [List.flatMap_cons, List.append_assoc, body_quoteChar, ih]
    simp

end Literal

/-- A quoted text reads back, whatever stands around it. -/
theorem Scan.quoted_quote (s : String) {c : Cursor} {rest : List Char}
    (hrest : c.rest = (Text.quote s).toList ++ rest) :
    quoted Text.quotationMark c = .ok s.toList (c.pass (Text.quote s).toList rest) := by
  rw [Text.toList_quote] at hrest ⊢
  simp only [quoted, Cursor.next, hrest, List.cons_append, List.append_assoc, List.nil_append,
    Literal.body_quoted, Cursor.pass]
  simp

end TextualData
