import TextualData.Proofs.Outlines
import TextualData.Proofs.SkippedTokens

/-!
# Expressions in listings

An expression in a listing is skipped like an expression of its own, although skipping takes a colon
for a separator and an expression may begin with one. What makes this so is that a separator follows
the expression, so that no quotation can be taken for a part of it.
-/

namespace TextualData

/-- No item of a listing follows its predecessor with a quotation directly. -/
theorem Scan.not_isQuotation_of_separator {closing : Char} (closes : ClosesListing closing)
    {refusal : Option ColonRefusal} {sep : Separator} {c c' : Cursor}
    (h : separator (some closing) refusal c = .ok sep c') {x : Char} (hpeek : c.peek? = some x) :
    ¬Literal.isQuotation x := by
  intro isQuotation
  have hne : ∀ y, ¬Literal.isQuotation y → x ≠ y := fun y hy hx => hy (hx ▸ isQuotation)
  obtain ⟨broken, c₁, blanks, separator⟩ := separator_eq_ok.1 h
  obtain ⟨rfl, rfl⟩ := EStateM.Result.ok.inj
    ((blanks_of_quotation hpeek isQuotation).symm.trans blanks)
  -- No blanks stand before a quotation, so the separator is a bracket, a colon or a comma.
  cases separator with
  | closing ends =>
    refine hne closing ?_ (Option.some.inj (hpeek.symm.trans ends))
    rcases closes with rfl | rfl | rfl <;> decide
  | unfinished ends => simp [hpeek] at ends
  | colon mark | comma mark =>
    exact hne _ (by decide) (Option.some.inj (hpeek.symm.trans mark))
  | lineBreak _ _ _ isBroken => simp at isBroken

namespace Outline

variable {closing : Char} {inKey : Bool} {m : Option Misread} {c c' d : Cursor}

/-- The first character of an expression neither closes a listing nor separates, unless it is the
colon of a token. -/
theorem exists_peek? (h : Outline (.expression inKey) c c' m) : ∃ x, c.peek? = some x ∧
    (∀ closing, ClosesListing closing → x ≠ closing) ∧
    ((inKey = false → x ≠ ':') → Extent.separates x = false) := by
  cases h with
  | hash opens | sequence opens =>
    exact ⟨_, opens, by rintro _ (rfl | rfl | rfl) <;> decide, fun _ => by decide⟩
  | quoted opens isQuotation =>
    refine ⟨_, opens, ?_, ?_⟩ <;> rcases Literal.isQuotation_iff.1 isQuotation with rfl | rfl
    · rintro _ (rfl | rfl | rfl) <;> decide
    · rintro _ (rfl | rfl | rfl) <;> decide
    · exact fun _ => by decide
    · exact fun _ => by decide
  | raw opens =>
    obtain ⟨rest, hrest, _⟩ := Literal.rawQuotation?_eq_some.1 opens
    exact ⟨'r', by simp [Cursor.peek?, hrest], by rintro _ (rfl | rfl | rfl) <;> decide,
      fun _ => by decide⟩
  | token _ split nonempty | call _ split nonempty =>
    obtain ⟨x, l, rfl⟩ := List.exists_cons_of_ne_nil nonempty
    obtain ⟨hx, rest, hrest, _⟩ := Token.split_eq_cons.1 split
    have hne : ∀ y ∈ Token.delimiters, y ≠ '+' → y ≠ ':' → x ≠ y := fun y => Token.ne_of_starts hx
    refine ⟨x, by simp [Cursor.peek?, hrest], ?_, fun hcolon => ?_⟩
    · rintro _ (rfl | rfl | rfl) <;> exact hne _ (by decide) (by decide) (by decide)
    · have hcolon : x ≠ ':' := by
        rintro rfl
        cases inKey with
        | false => exact hcolon rfl rfl
        | true => exact absurd hx (by decide)
      simp [Extent.separates, hne ',' (by decide), hne ';' (by decide), hne '=' (by decide), hcolon]

/-- The token at which an expression begins ends before a quotation only if the expression does. -/
theorem not_isQuotation_of_split (h : Outline (.expression false) c c' m) {l rest : List Char}
    (noRaw : Literal.rawQuotation? c.rest = none) (split : Token.split false c.rest = (l, rest))
    (nonempty : l ≠ []) (after : ∀ x, c'.peek? = some x → ¬Literal.isQuotation x) :
    ∀ x, rest.head? = some x → ¬Literal.isQuotation x := by
  cases h with
  | hash opens | sequence opens =>
    exact absurd (Token.closing?_of_split split nonempty opens) (by simp [Extent.closing?])
  | quoted opens isQuotation =>
    exact absurd isQuotation (Token.not_isQuotation_of_split split nonempty opens)
  | raw opens => simp [noRaw] at opens
  | token _ split' =>
    obtain ⟨rfl, rfl⟩ := Prod.mk.inj (split.symm.trans split')
    exact after
  | call _ split' _ blanks opens =>
    obtain ⟨rfl, rfl⟩ := Prod.mk.inj (split.symm.trans split')
    intro x hx isQuotation
    obtain rfl := Scan.blanks_unique blanks (Scan.blanks_of_quotation hx isQuotation)
    obtain rfl := Option.some.inj (opens.symm.trans hx)
    exact absurd isQuotation (by decide)

/-- A value in a listing is skipped like an expression of its own, also if it begins with a colon,
which is taken for a separator. -/
theorem skips_iff_of_value (h : Outline (.expression false) c c' m) (closes : ClosesListing closing)
    (stays : Scan.blanks c = .ok false c)
    (after : ∀ x, c'.peek? = some x → ¬Literal.isQuotation x) :
    Skips (some closing) c d ↔ ∃ e, Skips none c e ∧ Skips (some closing) e d := by
  obtain ⟨x, hpeek, hclosing, hmark⟩ := h.exists_peek?
  -- A token that begins with a colon is skipped as a separator and another token.
  by_cases hcolon : x = ':'
  · subst hcolon
    obtain ⟨tail, hrest⟩ := Cursor.rest_of_peek? hpeek
    have noRaw : Literal.rawQuotation? c.rest = none := by
      simp [hrest, Literal.rawQuotation?]
    have split : Token.split false c.rest = (':' :: tail.takeWhile (Token.continues false),
        tail.dropWhile (Token.continues false)) := by
      rw [hrest, Token.split_cons, if_pos (by decide)]
    have hl : ∀ y ∈ ':' :: tail.takeWhile (Token.continues false), Token.continues false y := by
      simp only [List.mem_cons]
      rintro y (rfl | hy)
      · decide
      · exact List.all_eq_true.1 List.all_takeWhile y hy
    rw [Skips.tail_iff closes (by simp [hrest]) hl (Token.ends_dropWhile tail) (fun _ => stays)
      fun _ => h.not_isQuotation_of_split noRaw split (by simp) after]
    simp only [Skips.token_iff noRaw split (by simp)]
  · exact Skips.item_iff stays hpeek (hclosing closing closes) (hmark fun _ => hcolon)

/-- A key in a listing is skipped like an expression of its own. -/
theorem skips_iff_of_key (h : Outline (.expression true) c c' m) (closes : ClosesListing closing)
    (stays : Scan.blanks c = .ok false c) :
    Skips (some closing) c d ↔ ∃ e, Skips none c e ∧ Skips (some closing) e d := by
  obtain ⟨x, hpeek, hclosing, hmark⟩ := h.exists_peek?
  exact Skips.item_iff stays hpeek (hclosing closing closes) (hmark (by simp))

/-- Where a raw literal begins stands nothing else. -/
theorem eq_none_of_raw {inKey : Bool} (h : Outline (.expression inKey) c c' m) {quotation : Char}
    (opens : Literal.rawQuotation? c.rest = some quotation) :
    m = none ∧ ∃ l, Scan.raw quotation c = .ok l c' := by
  have hpeek : c.peek? = some 'r' := by
    obtain ⟨tail, hrest, _⟩ := Literal.rawQuotation?_eq_some.1 opens
    simp [Cursor.peek?, hrest]
  cases h with
  | hash opens' | sequence opens' => simp [hpeek] at opens'
  | quoted opens' isQuotation =>
    obtain rfl := Option.some.inj (hpeek.symm.trans opens')
    exact absurd isQuotation (by decide)
  | raw opens' literal =>
    obtain rfl := Option.some.inj (opens.symm.trans opens')
    exact ⟨rfl, _, literal⟩
  | token noRaw | call noRaw => simp [noRaw] at opens

end Outline
end TextualData
