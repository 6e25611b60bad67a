import TextualData.Grammar.Literal

/-!
# Literals from their first characters

The first two characters tell a raw literal. Inside a quoted literal, the next character says
whether it is closed, goes on with an escape or goes on with the character itself; an escape has
neither a quotation nor a backslash after its first character.
-/

namespace TextualData

theorem Literal.rawQuotation?_eq_some {l : List Char} {quotation : Char} :
    rawQuotation? l = some quotation ↔
      ∃ rest, l = 'r' :: quotation :: rest ∧ isQuotation quotation := by
  unfold rawQuotation?
  split
  · next x rest =>
    constructor
    · intro h
      split at h
      · next hx =>
        obtain rfl := Option.some.inj h
        exact ⟨rest, rfl, hx⟩
      · simp at h
    · rintro ⟨rest', he, hq⟩
      simp only [List.cons.injEq, true_and] at he
      obtain ⟨rfl, rfl⟩ := he
      exact if_pos hq
  · next hno =>
    constructor
    · simp
    · rintro ⟨rest, rfl, _⟩
      exact absurd rfl (hno quotation rest)

theorem Literal.isQuotation_iff {x : Char} :
    isQuotation x ↔ x = Text.quotationMark ∨ x = Text.apostrophe := by
  simp [isQuotation]

namespace Literal

variable {quotation x e : Char} {start length : Nat} {before rest read t : List Char}

theorem ne_backslash (h : isQuotation quotation) : Text.backslash ≠ quotation := by
  rcases isQuotation_iff.1 h with rfl | rfl <;> decide

theorem body_quotation :
    body quotation start before (quotation :: rest) read =
      .ok read.reverse ⟨quotation :: before, rest⟩ := by
  rw [body.eq_def]
  simp

theorem body_text (h : isQuotation quotation) (he : escape e rest = .text t length) :
    body quotation start before (Text.backslash :: e :: rest) read =
      body quotation start (((e :: rest).take length).reverse ++ Text.backslash :: before)
        ((e :: rest).drop length) (t.reverse ++ read) := by
  rw [body.eq_def]
  simp [ne_backslash h, he]

theorem body_plain (hquotation : x ≠ quotation) (hbackslash : x ≠ Text.backslash) :
    body quotation start before (x :: rest) read =
      body quotation start (x :: before) rest (x :: read) := by
  rw [body.eq_def]
  simp [hquotation, hbackslash]

/-- The hexadecimal digits of an escape are the characters that stand there. -/
theorem hexValue?_of_hexRun (l : List Char) :
    ∀ x ∈ l.take (hexRun l).length, (Text.hexValue? x).isSome := by
  have hall := List.all_eq_true.1
    (List.all_takeWhile (l := l.take 4) (p := fun c => (Text.hexValue? c).isSome))
  have hlength : (hexRun l).length =
      ((l.take 4).takeWhile fun c => (Text.hexValue? c).isSome).length := by
    rw [hexRun, List.filterMap_length_eq_length]
    exact hall
  have hprefix : ((l.take 4).takeWhile fun c => (Text.hexValue? c).isSome) <+: l :=
    (List.takeWhile_prefix _).trans (List.take_prefix 4 l)
  rw [hlength, ← List.prefix_iff_eq_take.1 hprefix]
  exact hall

theorem not_hexValue? {x : Char} (h : isQuotation x ∨ x = Text.backslash) :
    (Text.hexValue? x).isSome = false := by
  rw [isQuotation_iff] at h
  rcases h with (rfl | rfl) | rfl <;> decide

theorem not_isBlank {x : Char} (h : isQuotation x ∨ x = Text.backslash) :
    Text.isBlank x = false := by
  rw [isQuotation_iff] at h
  rcases h with (rfl | rfl) | rfl <;> decide

/-- The characters that a continuation passes are blank. -/
theorem isBlank_of_continuation (broken : Bool) (l : List Char) :
    ∀ x ∈ l.take (continuation broken l).1, Text.isBlank x := by
  fun_induction continuation broken l
  case case1 | case2 | case4 => simp
  case case3 hl ih =>
    rw [hl] at ih
    intro x hx
    simp only [List.take_succ_cons, List.mem_cons] at hx
    rcases hx with rfl | rfl | hx
    · decide
    · decide
    · exact ih x hx
  case case5 y l _ hstop n found hl ih =>
    rw [hl] at ih
    intro x hx
    simp only [List.take_succ_cons, List.mem_cons] at hx
    rcases hx with rfl | hx
    · simp only [Bool.or_eq_true, Bool.not_eq_true', not_or, Bool.not_eq_false] at hstop
      exact hstop.1
    · exact ih x hx

/-- A blank character begins a continuation. -/
theorem continuation_pos {l : List Char} (h : ∀ x, l.head? = some x → Text.isBlank x)
    (nonempty : l ≠ []) : 0 < (continuation false l).1 := by
  -- Only a second line break stops at the first character, and there has been none yet.
  generalize hbroken : false = broken
  fun_cases continuation broken l
  case case1 => exact absurd rfl nonempty
  case case2 => simp at hbroken
  case case3 | case5 => exact Nat.succ_pos _
  case case4 x l _ hstop =>
    simp [← hbroken, h x rfl] at hstop

/-- An escape takes up at least one character, and after that neither a quotation nor a
backslash. -/
theorem escape_plain {e : Char} {m t : List Char} {length : Nat}
    (h : escape e m = .text t length) : ∃ k, length = k + 1 ∧
      ∀ x ∈ m.take k, ¬(isQuotation x ∨ x = Text.backslash) := by
  unfold escape at h
  split at h
  · simp only [Escape.text.injEq] at h
    exact ⟨0, h.2.symm, by simp⟩
  · split at h
    · dsimp only at h
      split at h
      · next digit digits u hdigits _ =>
        simp only [Escape.text.injEq] at h
        refine ⟨(hexRun m).length, by rw [← h.2], fun x hx hx' => ?_⟩
        -- The digits of a code point are neither.
        have hhex := hexValue?_of_hexRun m x hx
        simp [not_hexValue? hx'] at hhex
      · simp at h
    · split at h
      · next hblank =>
        split at h
        · next n hn =>
          simp only [Escape.text.injEq] at h
          -- A continuation passes blanks only, and the first of them is the escape's character.
          have hpos := continuation_pos (l := e :: m) (by simpa using hblank) (by simp)
          have hall := isBlank_of_continuation false (e :: m)
          rw [hn, h.2] at hpos hall
          obtain ⟨k, rfl⟩ := Nat.exists_eq_add_of_lt hpos
          refine ⟨k, by simp, fun x hx hx' => ?_⟩
          have hx := hall x (by simp [hx])
          simp [not_isBlank hx'] at hx
        · simp at h
      · simp at h

variable {broken : Bool} {l m : List Char}

theorem continuation_of_stop (h : !Text.isBlank x || Text.isLineBreak x && broken) :
    continuation broken (x :: l) = (0, broken) := by
  by_cases hpair : x = '\r' ∧ ∃ m, l = '\n' :: m
  · obtain ⟨rfl, m, rfl⟩ := hpair
    cases broken with
    | true => rfl
    | false => exact absurd h (by decide)
  · rw [continuation, if_pos h]
    rintro m rfl rfl
    exact hpair ⟨rfl, m, rfl⟩

theorem continuation_pair :
    continuation false ('\r' :: '\n' :: l) =
      ((continuation true l).1 + 2, (continuation true l).2) := rfl

theorem continuation_of_goesOn (h : ¬(!Text.isBlank x || Text.isLineBreak x && broken))
    (hpair : x = '\r' → l.head? ≠ some '\n') :
    continuation broken (x :: l) = ((continuation (broken || Text.isLineBreak x) l).1 + 1,
      (continuation (broken || Text.isLineBreak x) l).2) := by
  rw [continuation, if_neg h]
  rintro m rfl rfl
  exact hpair rfl rfl

section
variable (he : e = 'x' ∨ e = 'u') (hnamed : named? e = none)
include he hnamed

theorem escape_of_digits {u : Char} (hdigits : hexRun m ≠ [])
    (hscalar : Text.scalar? (hexNumber (hexRun m)) = some u) :
    escape e m = .text [u] ((hexRun m).length + 1) := by
  obtain ⟨digit, digits, hrun⟩ := List.exists_cons_of_ne_nil hdigits
  rw [hrun] at hscalar
  simp only [escape, hnamed, if_pos he, hrun, hscalar]

theorem escape_of_no_digits
    (h : hexRun m = [] ∨ Text.scalar? (hexNumber (hexRun m)) = none) :
    escape e m = .malformed .invalidNumericEscape ((hexRun m).length + 2) := by
  simp only [escape, hnamed, if_pos he]
  split
  · next hrun hscalar =>
    rcases h with h | h
    · simp [h] at hrun
    · simp [h] at hscalar
  · rfl

end

theorem escape_of_isBlank (hnamed : named? e = none)
    (hhex : ¬(e = 'x' ∨ e = 'u')) (hblank : Text.isBlank e) :
    escape e m = if (continuation false (e :: m)).2 then .text [] (continuation false (e :: m)).1
      else .malformed .blankEscape 0 := by
  simp only [escape, hnamed, if_neg hhex, if_pos hblank]
  split
  · next h => simp [h]
  · next h => simp [h]

end Literal
end TextualData
