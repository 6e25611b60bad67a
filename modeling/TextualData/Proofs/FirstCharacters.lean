import TextualData.Proofs.Blanks
import TextualData.Proofs.Tokens

/-!
# Expressions from their first character

The first character of an expression is no blank and none of the marks that end or separate
expressions, so no blanks begin at it within a line. It tells whether the expression is a hash, a
sequence, or anything else.
-/

namespace TextualData

/-- No token begins with a bracket. -/
theorem Token.peek?_ne {inKey : Bool} {x : Char} {l rest : List Char} {c : Cursor}
    (split : Token.split inKey c.rest = (l, rest)) (nonempty : l ≠ []) (hx : x ∈ delimiters)
    (hplus : x ≠ '+') (hcolon : x ≠ ':') : c.peek? ≠ some x := by
  obtain ⟨y, l, rfl⟩ := List.exists_cons_of_ne_nil nonempty
  obtain ⟨hy, m, hrest, _⟩ := Token.split_eq_cons.1 split
  simpa [Cursor.peek?, hrest] using Token.ne_of_starts hy hx hplus hcolon

namespace Value

/-- Whether a value may begin with a character. -/
def MayBegin (x : Char) : Prop :=
  Text.isBlank x = false ∧ x ∉ ['(', ')', ',', ';', '<', '=', '>', ']', '}']

theorem MayBegin.ne {x y : Char} (h : MayBegin x)
    (hy : y ∈ ['(', ')', ',', ';', '<', '=', '>', ']', '}']) : x ≠ y := by
  rintro rfl
  exact h.2 hy

theorem MayBegin.notMem {x : Char} (h : MayBegin x) {l : List Char}
    (hl : l ⊆ ['(', ')', ',', ';', '<', '=', '>', ']', '}']) : x ∉ l :=
  fun hx => h.2 (hl hx)

theorem mayBegin_of_starts {x : Char} (h : Token.starts false x) : MayBegin x := by
  refine ⟨?_, fun hx => ?_⟩
  · simp only [Token.starts, Bool.or_eq_true, beq_iff_eq, Token.continues_iff] at h
    rcases h with rfl | ⟨hblank, _⟩ | ⟨rfl, _⟩
    · decide
    · exact hblank
    · decide
  · simp only [List.mem_cons, List.not_mem_nil, or_false] at hx
    rcases hx with rfl | rfl | rfl | rfl | rfl | rfl | rfl | rfl | rfl <;>
      exact absurd h (by decide)

end Value

/-- Something stands before a place in its line. -/
def Cursor.IsInLine (c : Cursor) : Prop :=
  Text.isLineBlankBefore c.before = false

namespace Cursor

variable {c : Cursor} {x : Char} {l : List Char}

theorem isInLine_cons (h : Text.isBlank x = false) (before rest : List Char) :
    IsInLine ⟨x :: before, rest⟩ := by
  have hbreak := Text.not_isLineBreak_of_isBlank h
  simp [IsInLine, Text.isLineBlankBefore, hbreak, h]

/-- No blanks begin where a value begins in a line. -/
theorem blanks_of_mayBegin (hrest : c.rest = x :: l) (hx : Value.MayBegin x) (h : c.IsInLine) :
    Scan.blanks c = .ok false c := by
  exact Scan.blanks_of_peek? (by simp [peek?, hrest]) hx.1 (hx.ne (by decide)) fun _ => h

end Cursor

namespace Reads

variable {resolves : FunctionCall → Value → Prop} {forced inKey : Bool} {v : Value} {c c' : Cursor}

/-- What begins an expression. -/
theorem begins
    (h : Reads resolves (.value forced inKey v) c c') :
    ∃ x, c.peek? = some x ∧
      (x = '{' ∨ x = '[' ∨ Literal.isQuotation x ∨ Token.starts inKey x) := by
  cases h with
  | hash opens => exact ⟨_, opens, .inl rfl⟩
  | sequence opens => exact ⟨_, opens, .inr (.inl rfl)⟩
  | quoted opens isQuotation => exact ⟨_, opens, .inr (.inr (.inl isQuotation))⟩
  | raw opens =>
    obtain ⟨rest, hrest, _⟩ := Literal.rawQuotation?_eq_some.1 opens
    refine ⟨'r', by simp [Cursor.peek?, hrest], .inr (.inr (.inr ?_))⟩
    cases inKey <;> decide
  | token _ split nonempty | call _ split nonempty | keyCall _ split nonempty =>
    obtain ⟨x, l, rfl⟩ := List.exists_cons_of_ne_nil nonempty
    obtain ⟨hx, m, hrest, _⟩ := Token.split_eq_cons.1 split
    exact ⟨x, by simp [Cursor.peek?, hrest], .inr (.inr (.inr hx))⟩

/-- An expression begins with a character that a value may begin with. -/
theorem exists_mayBegin (h : Reads resolves (.value forced inKey v) c c') :
    ∃ x, c.peek? = some x ∧ Value.MayBegin x := by
  obtain ⟨x, hpeek, hx⟩ := h.begins
  refine ⟨x, hpeek, ?_⟩
  rcases hx with rfl | rfl | hx | hx
  · exact ⟨by decide, by decide⟩
  · exact ⟨by decide, by decide⟩
  · rcases Literal.isQuotation_iff.1 hx with rfl | rfl <;> exact ⟨by decide, by decide⟩
  · cases inKey with
    | true => exact Value.mayBegin_of_starts (Token.starts_of_inKey hx)
    | false => exact Value.mayBegin_of_starts hx

/-- An expression that begins with a brace is a hash. -/
theorem of_brace
    (h : Reads resolves (.value forced inKey v) c c') (opens : c.peek? = some '{') :
    ∃ entries broken c₁ c₂, v = .hash entries ∧ Scan.blanks c.next = .ok broken c₁ ∧
      Reads resolves (.entries (some '}') forced [] entries) c₁ c₂ ∧ c' = c₂.next := by
  cases h with
  | hash _ blanks inner => exact ⟨_, _, _, _, rfl, blanks, inner, rfl⟩
  | sequence opens' => exact absurd (opens.symm.trans opens') (by decide)
  | quoted opens' isQuotation =>
    obtain rfl := Option.some.inj (opens.symm.trans opens')
    exact absurd isQuotation (by decide)
  | raw opens' =>
    obtain ⟨rest, hrest, _⟩ := Literal.rawQuotation?_eq_some.1 opens'
    simp [Cursor.peek?, hrest] at opens
  | token _ split nonempty | call _ split nonempty | keyCall _ split nonempty =>
    exact absurd opens (Token.peek?_ne split nonempty (by decide) (by decide) (by decide))

/-- An expression that begins with a square bracket is a sequence. -/
theorem of_bracket
    (h : Reads resolves (.value forced inKey v) c c') (opens : c.peek? = some '[') :
    ∃ items broken c₁ c₂, v = .sequence items ∧ Scan.blanks c.next = .ok broken c₁ ∧
      Reads resolves (.items (some ']') forced items) c₁ c₂ ∧ c' = c₂.next := by
  cases h with
  | hash opens' => exact absurd (opens.symm.trans opens') (by decide)
  | sequence _ blanks inner => exact ⟨_, _, _, _, rfl, blanks, inner, rfl⟩
  | quoted opens' isQuotation =>
    obtain rfl := Option.some.inj (opens.symm.trans opens')
    exact absurd isQuotation (by decide)
  | raw opens' =>
    obtain ⟨rest, hrest, _⟩ := Literal.rawQuotation?_eq_some.1 opens'
    simp [Cursor.peek?, hrest] at opens
  | token _ split nonempty | call _ split nonempty | keyCall _ split nonempty =>
    exact absurd opens (Token.peek?_ne split nonempty (by decide) (by decide) (by decide))

end Reads
end TextualData
