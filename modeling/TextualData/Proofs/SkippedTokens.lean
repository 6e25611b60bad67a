import TextualData.Proofs.SkippedListings
import TextualData.Proofs.SkippedLiterals

/-!
# Tokens taken up at a colon

Outside of keys a token may hold colons, and in a listing a colon separates. A listing ends at the
same place whether a token in it is skipped as a whole, or its colons as separators and what follows
them as tokens. The exception is a token that ends in the letter of a raw literal, which a quotation
follows.
-/

namespace TextualData

/-- No blanks begin with a quotation. -/
theorem Scan.blanks_of_quotation {c : Cursor} {quotation : Char} (hpeek : c.peek? = some quotation)
    (isQuotation : Literal.isQuotation quotation) : blanks c = .ok false c := by
  refine blanks_of_peek? hpeek (Literal.not_isBlank (.inl isQuotation)) ?_ ?_
  · rintro rfl
    exact absurd isQuotation (by decide)
  · rintro rfl
    exact absurd isQuotation (by decide)

/-- After a colon a number sign does not open a comment. -/
theorem Scan.blanks_of_colon {c : Cursor} {x : Char} (hbefore : c.before.head? = some ':')
    (hpeek : c.peek? = some x) (hx : Token.continues false x) : blanks c = .ok false c := by
  refine blanks_of_peek? hpeek (Token.isBlank_of_continues hx)
    (Token.ne_of_continues hx (by decide) (by decide)) fun _ => ?_
  obtain ⟨before, hb⟩ := List.head?_eq_some_iff.1 hbefore
  simp [hb, Text.isLineBlankBefore, Text.isLineBreak, show Text.isBlank ':' = false by decide]

namespace Skips

variable {closing : Char} {c d e : Cursor} {l rest : List Char}

theorem OfCall.eq_of_noCall {broken : Bool} {c₁ : Cursor} (blanks : Scan.blanks c = .ok broken c₁)
    (noCall : c₁.peek? ≠ some '(') : OfCall c e ↔ e = c := by
  constructor
  · intro h
    cases h with
    | none => rfl
    | params blanks' opens =>
      obtain rfl := Scan.blanks_unique blanks blanks'
      exact absurd opens noCall
  · rintro rfl
    exact .none blanks noCall

theorem OfCall.params_iff {broken : Bool} {c₁ : Cursor} (blanks : Scan.blanks c = .ok broken c₁)
    (opens : c₁.peek? = some '(') : OfCall c e ↔ Skips (some ')') c₁.next e := by
  constructor
  · intro h
    cases h with
    | none blanks' noCall =>
      obtain rfl := Scan.blanks_unique blanks blanks'
      exact absurd opens noCall
    | params blanks' _ inner =>
      obtain rfl := Scan.blanks_unique blanks blanks'
      exact inner
  · exact .params blanks opens

/-- The rest of a listing may be taken up by what would be the parameters of a call. -/
theorem ofCall_iff (closes : ClosesListing closing) :
    Skips (some closing) c d ↔ ∃ e, OfCall c e ∧ Skips (some closing) e d := by
  have hparen : '(' ≠ closing := by rcases closes with rfl | rfl | rfl <;> decide
  constructor
  · intro h
    obtain ⟨broken, c₁, blanks⟩ : ∃ broken c₁, Scan.blanks c = .ok broken c₁ := by
      cases h with
      | close blanks | mark blanks | item blanks => exact ⟨_, _, blanks⟩
    by_cases opens : c₁.peek? = some '('
    · obtain ⟨e, first, more⟩ := (item_iff blanks opens hparen rfl).1 h
      exact ⟨e, .params blanks opens ((listing_iff opens rfl).1 first), more⟩
    · exact ⟨c, .none blanks opens, h⟩
  · rintro ⟨e, hcall, more⟩
    cases hcall with
    | none => exact more
    | params blanks opens inner =>
      exact (item_iff blanks opens hparen rfl).2 ⟨e, (listing_iff opens rfl).2 inner, more⟩

/-- A place in a token of a listing may as well be the beginning of its items. -/
theorem tail_iff (closes : ClosesListing closing) (hrest : c.rest = l ++ rest)
    (hl : ∀ x ∈ l, Token.continues false x) (ends : Token.Ends rest)
    (stays : l ≠ [] → Scan.blanks c = .ok false c)
    (noQuotation : l ≠ [] → ∀ x, rest.head? = some x → ¬Literal.isQuotation x) :
    Skips (some closing) c d ↔ ∃ e, OfCall (c.pass l rest) e ∧ Skips (some closing) e d := by
  -- Skipping may stop at each colon of the token; from there the same holds of what is left.
  induction l generalizing c with
  | nil =>
    have hc : c.pass [] rest = c := by
      rw [show rest = c.rest from hrest.symm]
      rfl
    rw [hc]
    exact ofCall_iff closes
  | cons x l ih =>
    have hx := hl x (by simp)
    have hpeek : c.peek? = some x := by simp [Cursor.peek?, hrest]
    have hnext := Cursor.next_of_rest hrest
    have hclosing : x ≠ closing := by
      rcases closes with rfl | rfl | rfl <;>
        exact Token.ne_of_continues hx (by decide) (by decide)
    by_cases hcolon : x = ':'
    · subst hcolon
      have hpass : c.pass (':' :: l) rest = c.next.pass l rest := by simp [Cursor.pass, hnext]
      rw [mark_iff (stays (by simp)) hpeek hclosing rfl, hpass]
      refine ih (by simp [hnext]) (fun y hy => hl y (List.mem_cons_of_mem _ hy)) (fun hne => ?_)
        fun _ => noQuotation (by simp)
      obtain ⟨y, m, rfl⟩ := List.exists_cons_of_ne_nil hne
      exact Scan.blanks_of_colon (by simp [hnext]) (by simp [Cursor.peek?, hnext]) (hl y (by simp))
    · have hmark : Extent.separates x = false := by
        have hne : ∀ y ∈ Token.delimiters, y ≠ ':' → x ≠ y := fun y => Token.ne_of_continues hx
        simp [Extent.separates, hne ',' (by decide), hne ';' (by decide), hne '=' (by decide),
          hcolon]
      have hraw : Literal.rawQuotation? c.rest = none := by
        rw [hrest, List.cons_append]
        exact Token.rawQuotation?_eq_none (fun y hy => hl y (List.mem_cons_of_mem _ hy))
          (noQuotation (by simp))
      have hsplit : Token.split false c.rest = (x :: l, rest) := by
        rw [hrest, List.cons_append]
        exact Token.split_of_ends (by simp [Token.starts, hx])
          (fun y hy => hl y (List.mem_cons_of_mem _ hy)) ends
      simp only [item_iff (stays (by simp)) hpeek hclosing hmark, token_iff hraw hsplit (by simp)]

end Skips
end TextualData
