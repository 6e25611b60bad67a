import TextualData.Proofs.Blanks
import TextualData.Proofs.Skipping

/-!
# Skipped listings

What is skipped from a place is decided by the character there: a bracket opens a listing, a
quotation a literal, anything else a token with the parameters of its call. In a listing, blanks and
separators do not change where its end is found, and neither does it matter at which of its colons
a token is taken up.
-/

namespace TextualData

namespace Skips

variable {closing x : Char} {c c₁ c' d e : Cursor} {broken : Bool}

section Listing

variable (blanks : Scan.blanks c = .ok broken c₁)
include blanks

theorem ends_iff (closes : c₁.peek? = some closing) : Skips (some closing) c d ↔ d = c₁.next := by
  constructor
  · intro h
    cases h with
    | close blanks' => rw [Scan.blanks_unique blanks blanks']
    | mark blanks' next goesOn | item blanks' next goesOn =>
      rw [Scan.blanks_unique blanks blanks'] at closes
      exact absurd (Option.some.inj (next.symm.trans closes)) goesOn
  · rintro rfl
    exact .close blanks closes

theorem mark_iff (next : c₁.peek? = some x) (goesOn : x ≠ closing)
    (separates : Extent.separates x) :
    Skips (some closing) c d ↔ Skips (some closing) c₁.next d := by
  constructor
  · intro h
    cases h with
    | close blanks' closes =>
      rw [Scan.blanks_unique blanks blanks'] at next
      exact absurd (Option.some.inj (next.symm.trans closes)) goesOn
    | mark blanks' _ _ _ more =>
      rw [Scan.blanks_unique blanks blanks']
      exact more
    | item blanks' next' _ noMark =>
      rw [Scan.blanks_unique blanks blanks'] at next
      rw [Option.some.inj (next.symm.trans next'), noMark] at separates
      exact absurd separates (by simp)
  · exact .mark blanks next goesOn separates

theorem item_iff (next : c₁.peek? = some x) (goesOn : x ≠ closing)
    (noMark : Extent.separates x = false) :
    Skips (some closing) c d ↔ ∃ e, Skips none c₁ e ∧ Skips (some closing) e d := by
  constructor
  · intro h
    cases h with
    | close blanks' closes =>
      rw [Scan.blanks_unique blanks blanks'] at next
      exact absurd (Option.some.inj (next.symm.trans closes)) goesOn
    | mark blanks' next' _ separates =>
      rw [Scan.blanks_unique blanks blanks'] at next
      rw [← Option.some.inj (next.symm.trans next'), noMark] at separates
      exact absurd separates (by simp)
    | item blanks' _ _ _ first more =>
      rw [Scan.blanks_unique blanks blanks']
      exact ⟨_, first, more⟩
  · rintro ⟨e, first, more⟩
    exact .item blanks next goesOn noMark first more

theorem not_of_ends (ends : c₁.peek? = none) : ¬Skips (some closing) c d := by
  intro h
  cases h with
  | close blanks' next | mark blanks' next | item blanks' next =>
    rw [Scan.blanks_unique blanks blanks'] at ends
    simp [next] at ends

/-- Blanks before an item do not count. -/
theorem blanks_iff : Skips (some closing) c d ↔ Skips (some closing) c₁ d := by
  have again := Scan.blanks_again blanks
  cases next : c₁.peek? with
  | none => exact iff_of_false (not_of_ends blanks next) (not_of_ends again next)
  | some x =>
    by_cases goesOn : x = closing
    · rw [goesOn] at next
      rw [ends_iff blanks next, ends_iff again next]
    · cases separates : Extent.separates x with
      | true => rw [mark_iff blanks next goesOn separates, mark_iff again next goesOn separates]
      | false => rw [item_iff blanks next goesOn separates, item_iff again next goesOn separates]

end Listing

/-- A separator before an item does not count. -/
theorem separator_iff (closes : ClosesListing closing) {refusal : Option ColonRefusal}
    {sep : Separator} (separated : Scan.separator (some closing) refusal c = .ok sep c') :
    Skips (some closing) c d ↔ Skips (some closing) c' d := by
  have hcolon : ':' ≠ closing := by rcases closes with rfl | rfl | rfl <;> decide
  have hcomma : ',' ≠ closing := by rcases closes with rfl | rfl | rfl <;> decide
  obtain ⟨broken, c₁, blanks, separator⟩ := separator_eq_ok.1 separated
  cases separator with
  | closing | unfinished | lineBreak => exact blanks_iff blanks
  | colon mark _ blanks' => rw [mark_iff blanks mark hcolon rfl, blanks_iff blanks']
  | comma mark blanks' => rw [mark_iff blanks mark hcomma rfl, blanks_iff blanks']

section Expression

/-- A bracket opens a listing. -/
theorem listing_iff (opens : c.peek? = some x) (closes : Extent.closing? x = some closing) :
    Skips none c d ↔ Skips (some closing) c.next d := by
  constructor
  · intro h
    cases h with
    | listing opens' closes' inner =>
      obtain rfl := Option.some.inj (opens.symm.trans opens')
      obtain rfl := Option.some.inj (closes.symm.trans closes')
      exact inner
    | raw opens' =>
      obtain ⟨rest, hrest, _⟩ := Literal.rawQuotation?_eq_some.1 opens'
      obtain rfl : 'r' = x := by simpa [Cursor.peek?, hrest] using opens
      simp [Extent.closing?] at closes
    | quoted opens' isQuotation =>
      obtain rfl := Option.some.inj (opens.symm.trans opens')
      simp [Literal.closing?_of_isQuotation isQuotation] at closes
    | token _ split nonempty | call _ split nonempty =>
      simp [Token.closing?_of_split split nonempty opens] at closes
  · exact .listing opens closes

/-- A quoted literal. -/
theorem quoted_iff {quotation : Char} (opens : c.peek? = some quotation)
    (isQuotation : Literal.isQuotation quotation) : Skips none c d ↔
      Extent.quoted quotation c.position c.next.before c.next.rest = .ok () d := by
  constructor
  · intro h
    cases h with
    | listing opens' closes =>
      obtain rfl := Option.some.inj (opens.symm.trans opens')
      simp [Literal.closing?_of_isQuotation isQuotation] at closes
    | raw opens' =>
      obtain ⟨rest, hrest, _⟩ := Literal.rawQuotation?_eq_some.1 opens'
      obtain rfl : 'r' = quotation := by simpa [Cursor.peek?, hrest] using opens
      exact absurd isQuotation (by decide)
    | quoted opens' _ literal =>
      obtain rfl := Option.some.inj (opens.symm.trans opens')
      exact literal
    | token _ split nonempty | call _ split nonempty =>
      exact absurd isQuotation (Token.not_isQuotation_of_split split nonempty opens)
  · exact .quoted opens isQuotation

end Expression

/-- What is skipped after a token: the parameters of its call, if there are any. -/
inductive OfCall (c : Cursor) : Cursor → Prop where
  | none {broken : Bool} {c₁ : Cursor} (blanks : Scan.blanks c = .ok broken c₁)
      (noCall : c₁.peek? ≠ some '(') : OfCall c c
  | params {broken : Bool} {c₁ c' : Cursor} (blanks : Scan.blanks c = .ok broken c₁)
      (opens : c₁.peek? = some '(') (inner : Skips (some ')') c₁.next c') : OfCall c c'

/-- A token with the parameters of its call. -/
theorem token_iff {l rest : List Char} (noRaw : Literal.rawQuotation? c.rest = none)
    (split : Token.split false c.rest = (l, rest)) (nonempty : l ≠ []) :
    Skips none c d ↔ OfCall (c.pass l rest) d := by
  obtain ⟨x, l', rfl⟩ := List.exists_cons_of_ne_nil nonempty
  obtain ⟨_, m, hrest, _⟩ := Token.split_eq_cons.1 split
  have hpeek : c.peek? = some x := by simp [Cursor.peek?, hrest]
  constructor
  · intro h
    cases h with
    | listing opens closes => simp [Token.closing?_of_split split nonempty opens] at closes
    | raw opens => simp [noRaw] at opens
    | quoted opens isQuotation =>
      exact absurd isQuotation (Token.not_isQuotation_of_split split nonempty opens)
    | token _ split' _ blanks noCall =>
      obtain ⟨rfl, rfl⟩ := Prod.mk.inj (split.symm.trans split')
      exact .none blanks noCall
    | call _ split' _ blanks opens inner =>
      obtain ⟨rfl, rfl⟩ := Prod.mk.inj (split.symm.trans split')
      exact .params blanks opens inner
  · intro h
    cases h with
    | none blanks noCall => exact .token noRaw split nonempty blanks noCall
    | params blanks opens inner => exact .call noRaw split nonempty blanks opens inner

end Skips
end TextualData
