import TextualData.Grammar.Token
import TextualData.Proofs.Literals

/-!
# Tokens from their first character

The first character tells a token from a bracket and from a quoted literal. A token means a truth
value, a number or the string itself.
-/

namespace TextualData

theorem Text.not_isLineBreak_of_isBlank {x : Char} (h : isBlank x = false) :
    isLineBreak x = false := by
  rw [← Bool.not_eq_true]
  intro hbreak
  simp [isBlank_of_isLineBreak hbreak] at h

/-- Elements of one kind, up to one that is not of it. -/
theorem takeWhile_dropWhile_append {α : Type} {p : α → Bool} {l m : List α} (hl : ∀ x ∈ l, p x)
    (hm : ∀ x ∈ m.head?, p x = false) :
    (l ++ m).takeWhile p = l ∧ (l ++ m).dropWhile p = m := by
  rw [List.takeWhile_append_of_pos hl, List.dropWhile_append_of_pos hl]
  cases m with
  | nil => simp
  | cons x m => simp [hm x rfl]

/-- Elements of one kind are dropped up to one that is not of it. -/
theorem head?_dropWhile_eq_false {α : Type} (p : α → Bool) (l : List α) :
    ∀ x ∈ (l.dropWhile p).head?, p x = false := by
  intro x hx
  have hnot := List.head?_dropWhile_not p l
  rw [Option.mem_def.1 hx] at hnot
  exact hnot

namespace Token

variable {inKey : Bool} {x : Char} {l rest : List Char}

theorem continues_iff : continues inKey x ↔
    Text.isBlank x = false ∧ x ∉ delimiters ∨ x = ':' ∧ inKey = false := by
  simp [continues, isTokenChar]

/-- Neither a blank nor a delimiter goes on with a token, a colon apart. -/
theorem continues_eq_false (h : Text.isBlank x ∨ x ∈ delimiters) (hcolon : x ≠ ':') :
    continues inKey x = false := by
  rw [← Bool.not_eq_true, continues_iff]
  rintro (⟨hblank, hdelimiter⟩ | ⟨hx, _⟩)
  · rcases h with h | h
    · simp [hblank] at h
    · exact hdelimiter h
  · exact hcolon hx

/-- Whether a character may begin a token. -/
def starts (inKey : Bool) (x : Char) : Bool :=
  x == '+' || continues inKey x

@[simp] theorem split_nil : split inKey [] = ([], []) := rfl

/-- A token begins with a plus sign or with a character that may stand anywhere in it. -/
theorem split_cons (inKey : Bool) (x : Char) (l : List Char) :
    split inKey (x :: l) = if starts inKey x
      then (x :: l.takeWhile (continues inKey), l.dropWhile (continues inKey))
      else ([], x :: l) := by
  by_cases hplus : x = '+'
  · subst hplus
    simp [split, starts]
  · rw [split]
    · by_cases hx : continues inKey x <;> simp [starts, hplus, hx]
    · rintro m hm
      simp only [List.cons.injEq] at hm
      exact hplus hm.1

/-- The characters of a token, and what ends it. -/
theorem split_eq_cons {l' : List Char} : split inKey l = (x :: l', rest) ↔
    starts inKey x ∧ ∃ m, l = x :: m ∧ l' = m.takeWhile (continues inKey) ∧
      rest = m.dropWhile (continues inKey) := by
  cases l with
  | nil => simp
  | cons y m =>
    rw [split_cons]
    by_cases hy : starts inKey y
    · simp only [hy, if_true, Prod.mk.injEq, List.cons.injEq]
      constructor
      · rintro ⟨⟨rfl, rfl⟩, rfl⟩
        exact ⟨hy, m, ⟨rfl, rfl⟩, rfl, rfl⟩
      · rintro ⟨_, _, ⟨rfl, rfl⟩, rfl, rfl⟩
        exact ⟨⟨rfl, rfl⟩, rfl⟩
    · simp only [hy, Bool.false_eq_true, if_false, Prod.mk.injEq, reduceCtorEq, false_and,
        List.cons.injEq, false_iff, not_and, not_exists]
      rintro hx _ ⟨rfl, _⟩
      exact absurd hx hy

/-- What begins a token is neither a bracket nor a quotation. -/
theorem ne_of_starts (h : starts inKey x) {y : Char} (hy : y ∈ delimiters) (hplus : y ≠ '+')
    (hcolon : y ≠ ':') : x ≠ y := by
  rintro rfl
  simp [starts, hplus, continues_eq_false (.inr hy) hcolon] at h

/-- No token begins with a blank. -/
theorem isBlank_of_starts (h : starts inKey x) :
    Text.isBlank x = false := by
  simp only [starts, Bool.or_eq_true, beq_iff_eq] at h
  rcases h with rfl | h
  · decide
  · rcases continues_iff.1 h with ⟨hblank, _⟩ | ⟨rfl, _⟩
    · exact hblank
    · decide

/-- What goes on with a key goes on with any token. -/
theorem continues_of_inKey (h : continues true x) : continues false x := by
  rw [continues_iff] at h ⊢
  rcases h with h | ⟨_, h⟩
  · exact .inl h
  · exact absurd h (by simp)

theorem starts_of_inKey (h : starts true x) : starts false x := by
  rw [starts, Bool.or_eq_true] at h ⊢
  exact h.imp_right continues_of_inKey

/-- A token ends where a character stands that does not go on with it. -/
def Ends (rest : List Char) : Prop :=
  ∀ x, rest.head? = some x → continues false x = false

theorem ends_dropWhile (l : List Char) : Ends (l.dropWhile (continues false)) :=
  head?_dropWhile_eq_false (continues false) l

/-- A token that begins like one and goes on up to its end. -/
theorem split_of_ends (hx : starts inKey x) (hl : ∀ y ∈ l, continues inKey y)
    (hrest : ∀ y, rest.head? = some y → continues inKey y = false) :
    split inKey (x :: (l ++ rest)) = (x :: l, rest) := by
  obtain ⟨htake, hdrop⟩ := takeWhile_dropWhile_append hl hrest
  exact split_eq_cons.2 ⟨hx, l ++ rest, rfl, htake.symm, hdrop.symm⟩

theorem split_of_takeWhile {m : List Char} (h : m.takeWhile (continues false) ≠ []) :
    split false m = (m.takeWhile (continues false), m.dropWhile (continues false)) := by
  cases m with
  | nil => exact absurd rfl h
  | cons x m =>
    by_cases hx : continues false x
    · simp [split_cons, starts, hx]
    · simp [hx] at h

theorem ne_of_continues (h : continues false x) {y : Char} (hy : y ∈ delimiters)
    (hcolon : y ≠ ':') : x ≠ y := by
  rintro rfl
  simp [continues_eq_false (.inr hy) hcolon] at h

/-- A key that ends before anything but a colon is the same token elsewhere. -/
theorem split_of_inKey {m : List Char} (split : split true m = (l, rest)) (nonempty : l ≠ [])
    (noColon : rest.head? ≠ some ':') : Token.split false m = (l, rest) := by
  obtain ⟨x, l, rfl⟩ := List.exists_cons_of_ne_nil nonempty
  obtain ⟨hx, m, rfl, rfl, rfl⟩ := split_eq_cons.1 split
  conv => lhs; rw [← List.takeWhile_append_dropWhile (p := continues true) (l := m)]
  refine split_of_ends (starts_of_inKey hx) (fun y hy => ?_) fun y hy => ?_
  · exact continues_of_inKey (List.all_eq_true.1 List.all_takeWhile y hy)
  · have hkey := head?_dropWhile_eq_false (continues true) m y hy
    rw [hy] at noColon
    simp_all [continues]

theorem isBlank_of_continues (h : continues false x) : Text.isBlank x = false := by
  rcases continues_iff.1 h with ⟨hblank, _⟩ | ⟨rfl, _⟩
  · exact hblank
  · decide

theorem not_isLineBreak_of_continues (h : continues false x) : Text.isLineBreak x = false :=
  Text.not_isLineBreak_of_isBlank (isBlank_of_continues h)

/-- A token is no raw literal, unless a quotation follows it. -/
theorem rawQuotation?_eq_none (hl : ∀ y ∈ l, continues false y)
    (noQuotation : ∀ y, rest.head? = some y → ¬Literal.isQuotation y) :
    Literal.rawQuotation? (x :: (l ++ rest)) = none := by
  rw [Option.eq_none_iff_forall_not_mem]
  intro quotation hq
  obtain ⟨m, hm, isQuotation⟩ := Literal.rawQuotation?_eq_some.1 hq
  obtain ⟨_, hm⟩ := List.cons.inj hm
  cases l with
  | nil => exact noQuotation quotation (by simp [show rest = _ from hm]) isQuotation
  | cons y l =>
    obtain ⟨rfl, _⟩ := List.cons.inj hm
    have hy := hl y (by simp)
    rcases Literal.isQuotation_iff.1 isQuotation with rfl | rfl <;> exact absurd hy (by decide)

/-- What a token can mean. -/
theorem classify_cases (l : List Char) :
    classify l = .string (String.ofList l) ∨ (∃ b, classify l = .boolean b) ∨
      (∃ n, classify l = .integer n) ∨ ∃ d, classify l = .decimal d := by
  unfold classify
  split
  · exact .inr (.inl ⟨true, rfl⟩)
  · split
    · exact .inr (.inl ⟨false, rfl⟩)
    · unfold number?
      split
      · split
        · exact .inr (.inr (.inl ⟨_, rfl⟩))
        · split
          · cases Decimal.ofChars? (unsigned l) with
            | none => exact .inl rfl
            | some d => exact .inr (.inr (.inr ⟨d, rfl⟩))
          · exact .inl rfl
      · exact .inl rfl

end Token
end TextualData
