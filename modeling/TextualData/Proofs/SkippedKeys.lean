import TextualData.Proofs.SkippedValues

/-!
# Keys before colons

A token in the place of a key ends at a colon, but skipping does not stop there: it takes the key,
the colon and the token at the beginning of the value for one token. This makes no difference unless
the value is a raw literal, which is then skipped as a quoted one.
-/

namespace TextualData

/-- A colon directly after a key is the separator. -/
theorem Scan.eq_colon_of_separator {closing : Char} (closes : ClosesListing closing)
    {refusal : Option ColonRefusal} {sep : Separator} {c c' : Cursor} (hpeek : c.peek? = some ':')
    (h : separator (some closing) refusal c = .ok sep c') :
    sep = .colon ∧ ∃ broken, blanks c.next = .ok broken c' := by
  obtain ⟨broken, c₁, blanks, separator⟩ := separator_eq_ok.1 h
  obtain rfl := blanks_unique blanks
    (blanks_of_delimiter hpeek (by decide) (by decide))
  cases separator with
  | closing ends =>
    obtain rfl := Option.some.inj (hpeek.symm.trans ends)
    rcases closes with h | h | h <;> exact absurd h (by decide)
  | unfinished ends => simp [hpeek] at ends
  | colon _ _ blanks' => exact ⟨rfl, _, blanks'⟩
  | comma mark => simp [hpeek] at mark
  | lineBreak next _ noMark =>
    obtain rfl := Option.some.inj (hpeek.symm.trans next)
    simp at noMark

/-- A token in the place of a key, with a colon directly after it. -/
def Cursor.KeyAtColon (c c' : Cursor) (value : List Char) : Prop :=
  Literal.rawQuotation? c.rest = none ∧ ∃ x key,
    Token.split true c.rest = (x :: key, ':' :: value) ∧ c' = c.pass (x :: key) (':' :: value)

namespace Cursor

variable {c c' : Cursor} {value : List Char}

theorem misreadValue?_eq_none (h : ∀ c' value, ¬c.KeyAtColon c' value) :
    c.misreadValue? = none := by
  unfold misreadValue?
  split
  · next noRaw split => exact absurd ⟨noRaw, _, _, split, rfl⟩ (h _ _)
  · rfl

theorem KeyAtColon.misreadValue?_of_noRaw (h : c.KeyAtColon c' value)
    (noRaw : Literal.rawQuotation? value = none) : c.misreadValue? = none := by
  obtain ⟨noRaw', x, key, split, rfl⟩ := h
  simp only [misreadValue?, noRaw', split, noRaw]

theorem KeyAtColon.next_eq (h : c.KeyAtColon c' value) :
    c'.peek? = some ':' ∧ c'.next.rest = value ∧ c'.next.before.head? = some ':' := by
  obtain ⟨_, x, key, _, rfl⟩ := h
  exact ⟨rfl, rfl, rfl⟩

/-- A raw literal after the colon is misread if it ends in an escape. -/
theorem KeyAtColon.misreadValue?_of_raw (h : c.KeyAtColon c' value) {quotation : Char}
    (opens : Literal.rawQuotation? value = some quotation) {l rest : List Char}
    (literal : Literal.rawBody? quotation c'.next.next.next.rest = some (l, rest)) :
    c.misreadValue? = if Literal.endsInEscape l then some ⟨c'.next.next, []⟩ else none := by
  obtain ⟨tail, rfl, _⟩ := Literal.rawQuotation?_eq_some.1 opens
  obtain ⟨noRaw', x, key, split, rfl⟩ := h
  have literal : Literal.rawBody? quotation tail = some (l, rest) := literal
  simp only [misreadValue?, noRaw', split, opens, List.drop_succ_cons, List.drop_zero, literal]
  simp [Cursor.pass, Cursor.next]

/-- Skipping takes the key, the colon and the beginning of the value for one token. -/
theorem KeyAtColon.skips_iff (h : c.KeyAtColon c' value) {d : Cursor} : Skips none c d ↔
    Skips.OfCall (c'.next.pass (value.takeWhile (Token.continues false))
      (value.dropWhile (Token.continues false))) d := by
  obtain ⟨noRaw, x, key, split, rfl⟩ := h
  obtain ⟨hx, m, hrest, rfl, hm⟩ := Token.split_eq_cons.1 split
  have hsplit : Token.split false c.rest = (x :: (m.takeWhile (Token.continues true) ++
      ':' :: value.takeWhile (Token.continues false)),
        value.dropWhile (Token.continues false)) := by
    have hvalue : c.rest = x :: ((m.takeWhile (Token.continues true) ++
        ':' :: value.takeWhile (Token.continues false)) ++
        value.dropWhile (Token.continues false)) := by
      rw [hrest, List.append_assoc, List.cons_append, List.takeWhile_append_dropWhile, hm,
        List.takeWhile_append_dropWhile]
    rw [hvalue]
    refine Token.split_of_ends (Token.starts_of_inKey hx) (fun y hy => ?_)
      (Token.ends_dropWhile value)
    rcases List.mem_append.1 hy with hy | hy
    · exact Token.continues_of_inKey (List.all_eq_true.1 List.all_takeWhile y hy)
    · rcases List.mem_cons.1 hy with rfl | hy
      · decide
      · exact List.all_eq_true.1 List.all_takeWhile y hy
  rw [Skips.token_iff noRaw hsplit (by simp)]
  simp [Cursor.pass, Cursor.next]

end Cursor

namespace Outline

variable {closing : Char} {m : Option Misread} {c c' c₂ c₃ d : Cursor} {value : List Char}

/-- A key ends before a colon as a token, or not at all. -/
theorem keyAtColon_or (h : Outline (.expression true) c c' m) :
    (∀ e value, ¬c.KeyAtColon e value) ∨ m = none ∧ ∃ value, c.KeyAtColon c' value := by
  cases h with
  | hash opens | sequence opens =>
    refine .inl ?_
    rintro e value ⟨_, x, key, split, _⟩
    exact absurd (Token.closing?_of_split split (by simp) opens) (by simp [Extent.closing?])
  | quoted opens isQuotation =>
    refine .inl ?_
    rintro e value ⟨_, x, key, split, _⟩
    exact Token.not_isQuotation_of_split split (by simp) opens isQuotation
  | raw opens =>
    refine .inl ?_
    rintro e value ⟨noRaw, _⟩
    simp [noRaw] at opens
  | @token _ _ l rest _ _ noRaw split nonempty =>
    by_cases hcolon : ∃ value, rest = ':' :: value
    · obtain ⟨value, rfl⟩ := hcolon
      obtain ⟨x, key, rfl⟩ := List.exists_cons_of_ne_nil nonempty
      exact .inr ⟨rfl, value, noRaw, x, key, split, rfl⟩
    · refine .inl ?_
      rintro e value ⟨_, x, key, split', _⟩
      exact hcolon ⟨value, (Prod.mk.inj (split.symm.trans split')).2⟩
  | call _ split _ blanks opens =>
    refine .inl ?_
    rintro e value ⟨_, x, key, split', _⟩
    obtain ⟨rfl, rfl⟩ := Prod.mk.inj (split.symm.trans split')
    -- The parenthesis of a call would have to stand where the colon does.
    have stays : Scan.blanks (c.pass (x :: key) (':' :: value)) = .ok false _ :=
      Scan.blanks_of_delimiter rfl (by decide) (by decide)
    obtain rfl := Scan.blanks_unique blanks stays
    simp [Cursor.pass, Cursor.peek?] at opens

/-- The colon of a key separates, though skipping does not stop at it. -/
theorem skips_iff_of_value_after (key : c.KeyAtColon c' value)
    (first : Outline (.expression true) c c' m) {m' : Option Misread} {broken : Bool}
    (blanks : Scan.blanks c'.next = .ok broken c₂) (second : Outline (.expression false) c₂ c₃ m')
    (noRaw : Literal.rawQuotation? value = none) (closes : ClosesListing closing)
    (stays : Scan.blanks c = .ok false c)
    (after : ∀ x, c₃.peek? = some x → ¬Literal.isQuotation x) :
    Skips (some closing) c d ↔ Skips (some closing) c'.next d := by
  obtain ⟨_, hrest, hbefore⟩ := key.next_eq
  -- A number sign behind the colon opens no comment, since the colon stands in its line.
  have stays' : value.takeWhile (Token.continues false) ≠ [] →
      Scan.blanks c'.next = .ok false c'.next := by
    intro hne
    obtain ⟨x, l, hl⟩ := List.exists_cons_of_ne_nil hne
    have hx : Token.continues false x :=
      List.all_eq_true.1 List.all_takeWhile x (by rw [hl]; simp)
    obtain ⟨tail, rfl⟩ : ∃ tail, value = x :: tail := by
      have h := List.takeWhile_append_dropWhile (p := Token.continues false) (l := value)
      rw [hl] at h
      exact ⟨_, h.symm⟩
    exact Scan.blanks_of_colon hbefore (by simp [Cursor.peek?, hrest]) hx
  rw [first.skips_iff_of_key closes stays,
    Skips.tail_iff closes (hrest.trans List.takeWhile_append_dropWhile.symm)
      (List.all_eq_true.1 List.all_takeWhile) (Token.ends_dropWhile value) stays']
  · simp only [key.skips_iff]
  · intro hne
    obtain rfl := Scan.blanks_unique blanks (stays' hne)
    rw [← hrest] at noRaw hne ⊢
    exact second.not_isQuotation_of_split noRaw (Token.split_of_takeWhile hne) hne after

/-- A raw literal directly after the colon of a key is taken for a quoted one. -/
theorem skips_iff_of_raw_after (key : c.KeyAtColon c' value)
    (first : Outline (.expression true) c c' m) {quotation : Char}
    (opens : Literal.rawQuotation? value = some quotation) (closes : ClosesListing closing)
    (stays : Scan.blanks c = .ok false c) : Skips (some closing) c d ↔
      ∃ e, Skips none c'.next.next e ∧ Skips (some closing) e d := by
  obtain ⟨tail, rfl, isQuotation⟩ := Literal.rawQuotation?_eq_some.1 opens
  obtain ⟨_, hrest, _⟩ := key.next_eq
  have hne : ∀ x, ¬Literal.isQuotation x → quotation ≠ x := fun x hx hq => hx (hq ▸ isQuotation)
  have hcontinues : Token.continues false quotation = false := by
    rcases Literal.isQuotation_iff.1 isQuotation with rfl | rfl <;> decide
  -- The token ends with the letter of the literal, at its quotation.
  have hplace : c'.next.pass (('r' :: quotation :: tail).takeWhile (Token.continues false))
      (('r' :: quotation :: tail).dropWhile (Token.continues false)) = c'.next.next := by
    rw [Cursor.next_of_rest hrest]
    simp [hcontinues, show Token.continues false 'r' by decide, Cursor.pass]
  have hpeek : c'.next.next.peek? = some quotation := by
    rw [Cursor.next_of_rest hrest]
    rfl
  have stays' := Scan.blanks_of_quotation hpeek isQuotation
  have hparen : c'.next.next.peek? ≠ some '(' := by simpa [hpeek] using hne '(' (by decide)
  have hclosing : quotation ≠ closing :=
    hne closing (by rcases closes with rfl | rfl | rfl <;> decide)
  have hmark : Extent.separates quotation = false := by
    rcases Literal.isQuotation_iff.1 isQuotation with rfl | rfl <;> decide
  rw [first.skips_iff_of_key closes stays]
  simp only [key.skips_iff, hplace, Skips.OfCall.eq_of_noCall stays' hparen, exists_eq_left]
  exact Skips.item_iff stays' hpeek hclosing hmark

end Outline

/-- Skipping leads to one place only. -/
theorem Skips.iff_eq {c c' d : Cursor} (h : Skips none c c') : Skips none c d ↔ d = c' := by
  constructor
  · intro h'
    exact (EStateM.Result.ok.inj ((extent_eq_ok.2 h').symm.trans (extent_eq_ok.2 h))).2
  · rintro rfl
    exact h

/-- A raw literal that is taken up at its quotation is skipped to its end exactly if it does not end
in an escape. -/
theorem Skips.next_iff_of_raw {quotation : Char} {l : List Char} {c c' : Cursor}
    (opens : Literal.rawQuotation? c.rest = some quotation)
    (literal : Scan.raw quotation c = .ok l c') :
    Skips none c.next c' ↔ Literal.endsInEscape l = false := by
  obtain ⟨tail, hrest, isQuotation⟩ := Literal.rawQuotation?_eq_some.1 opens
  have hnext := Cursor.next_of_rest hrest
  obtain ⟨rest, hbody, rfl⟩ := Scan.raw_eq_ok.1 literal
  obtain ⟨htail, hmem⟩ := Literal.rawBody?_eq_some.1 hbody
  have hpeek : c.next.peek? = some quotation := by simp [hnext, Cursor.peek?]
  have hquoted := Extent.quoted_raw_iff isQuotation c.next.position c.next.next.before rest hmem
  rw [quoted_iff hpeek isQuotation, htail]
  simpa [Cursor.pass] using hquoted

end TextualData
