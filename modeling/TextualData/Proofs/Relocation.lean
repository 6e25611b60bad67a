import TextualData.Proofs.FirstCharacters
import TextualData.Proofs.Spans

/-!
# Reading in other surroundings

What a phrase denotes depends on its own characters, and on its surroundings only where it touches
them: an expression must end where no token would go on and where no parenthesis makes it a call,
and the items and entries of a listing begin behind a line that is as blank or not as before. If
the surroundings agree on that, the phrase reads the same in them (`Reads.of_sameSpan`).
-/

namespace TextualData

open Cursor

/-- A token that ends at the place does so in any case, and is no raw literal. -/
def Cursor.CutsToken (c : Cursor) (inKey : Bool) : Prop :=
  ∀ x, c.peek? = some x → Token.continues inKey x = false ∧ ¬Literal.isQuotation x

/-- A token that ends at the place is not the name of a call. -/
def Cursor.OpensNoCall (c : Cursor) : Prop :=
  ∃ broken c', Scan.blanks c = .ok broken c' ∧ c'.peek? ≠ some '('

/-- What is to agree in another text for a phrase to read the same in it. -/
def Phrase.Fits : Phrase → (c c' t t' : Cursor) → Prop
  | .value _ inKey _, _, c', _, t' =>
    (t'.peek? = c'.peek? ∨ t'.CutsToken inKey) ∧ t'.OpensNoCall
  | .items closing _ _, c, c', t, t' | .entries closing _ _ _, c, c', t, t' =>
    (∃ x, closing = some x ∧ ClosesListing x) ∧ SameLine c t ∧ t'.peek? = c'.peek?

variable {resolves : FunctionCall → Value → Prop} {c c' c₁ c₂ t t' : Cursor}

namespace Cursor.SameSpan

/-- Before the same characters and the same end stands the same. -/
theorem peek?_of_end (h : SameSpan c c' t t') (hend : t'.peek? = c'.peek?) :
    t.peek? = c.peek? := by
  obtain ⟨l, hc, ht⟩ := h
  cases l with
  | nil =>
    rw [Cursor.peek?, Cursor.peek?] at hend ⊢
    rw [hc.1, ht.1, List.nil_append, List.nil_append, hend]
  | cons x l => rw [Cursor.peek?, Cursor.peek?, hc.1, ht.1]; rfl

/-- Behind characters the first of which is no blank the line is the same. -/
theorem line_of_begins {x : Char} (h : SameSpan c c' t t') (hpeek : c.peek? = some x)
    (hx : Text.isBlank x = false) (hlt : c'.rest.length < c.rest.length) : SameLine c' t' := by
  obtain ⟨hnext, hafter⟩ := h.after_next hlt
  exact hafter.line (sameLine_next hpeek (hnext.next hpeek).1 hx)

end Cursor.SameSpan

theorem ClosesListing.plain {x : Char} (h : ClosesListing x) :
    Text.isBlank x = false ∧ x ≠ '<' ∧ x ≠ '(' := by
  rcases h with rfl | rfl | rfl <;> decide

/-- What stands where items begin. -/
theorem Reads.items_begin {b : Char} {forced : Bool} {vs : List Value}
    (h : Reads resolves (.items (some b) forced vs) c c') (closes : ClosesListing b) :
    ∃ x, c.peek? = some x ∧ x ≠ '<' ∧ x ≠ '(' := by
  cases h with
  | noItems hpeek => exact ⟨b, hpeek, closes.plain.2⟩
  | item _ first =>
    obtain ⟨x, hpeek, hx⟩ := first.exists_mayBegin
    exact ⟨x, hpeek, hx.ne (by decide), hx.ne (by decide)⟩

/-- What stands where entries begin. -/
theorem Reads.entries_begin {b : Char} {forced : Bool} {old new : Hash}
    (h : Reads resolves (.entries (some b) forced old new) c c') (closes : ClosesListing b) :
    ∃ x, c.peek? = some x ∧ x ≠ '<' ∧ x ≠ '(' := by
  cases h with
  | noEntries hpeek => exact ⟨b, hpeek, closes.plain.2⟩
  | pair _ first | flag _ first | merge _ first =>
    obtain ⟨x, hpeek, hx⟩ := first.exists_mayBegin
    exact ⟨x, hpeek, hx.ne (by decide), hx.ne (by decide)⟩

/-- A separator tells that no call opens before it, unless the item after it begins with a
parenthesis. -/
theorem Cursor.opensNoCall_of_separator {closing : Option Char} {refusal : Option ColonRefusal}
    {separator : Separator} (separated : Scan.separator closing refusal c = .ok separator c')
    (hpeek : c'.peek? ≠ some '(') : c.OpensNoCall := by
  obtain ⟨broken, c₁, hblanks, hseparator⟩ := separator_eq_ok.1 separated
  refine ⟨broken, c₁, hblanks, ?_⟩
  cases hseparator with
  | closing | lineBreak => exact hpeek
  | unfinished ends => simp [ends]
  | colon mark | comma mark => simp [mark]

/-- The inside of a bracketed listing in another text. -/
theorem Cursor.SameSpan.listing {x b y : Char} {broken : Bool}
    (h : SameSpan c c₂.next t t') (opens : c.peek? = some x) (hx : Text.isBlank x = false)
    (blanks : Scan.blanks c.next = .ok broken c₁) (inside : c₁.Leads c₂)
    (closes : c₂.peek? = some b) (begins : c₁.peek? = some y) (hy : y ≠ '<') :
    ∃ t₁ t₂, t.peek? = some x ∧ Scan.blanks t.next = .ok broken t₁ ∧ SameSpan c₁ c₂ t₁ t₂ ∧
      SameLine c₁ t₁ ∧ t₂.peek? = c₂.peek? ∧ t' = t₂.next := by
  have hlt : c₂.rest.length < c.rest.length :=
    Nat.lt_of_le_of_lt ((Scan.leads_of_blanks blanks).trans inside).length_le (next_length_lt opens)
  have hleads := (Scan.leads_of_blanks blanks).trans inside
  obtain ⟨t₂, hto, hfrom⟩ := h.split ((Leads.next c).trans hleads) (Leads.next c₂)
  obtain ⟨hcloses, hend⟩ := hfrom.next closes
  obtain ⟨hnext, hafter⟩ := hto.after_next hlt
  obtain ⟨hopens, _⟩ := hnext.next opens
  have hline := sameLine_next opens hopens hx
  obtain ⟨t₁, hgap, hinside⟩ := hafter.split (Scan.leads_of_blanks blanks) inside
  have hbegins := hinside.peek?_of_end (hcloses.trans closes.symm)
  exact ⟨t₁, t₂, hopens, Scan.blanks_of_sameSpan hgap hline begins (hbegins.trans begins) hy blanks,
    hinside, hgap.line hline, hcloses.trans closes.symm, hend⟩

/-- The token at the start of an expression in another text. -/
theorem Cursor.SameSpan.token {inKey : Bool} {l rest : List Char}
    (h : SameSpan c (c.pass l rest) t t') (noRaw : Literal.rawQuotation? c.rest = none)
    (split : Token.split inKey c.rest = (l, rest)) (nonempty : l ≠ [])
    (fits : t'.peek? = (c.pass l rest).peek? ∨ t'.CutsToken inKey) :
    Literal.rawQuotation? t.rest = none ∧ Token.split inKey t.rest = (l, t'.rest) ∧
      t' = t.pass l t'.rest := by
  have hsplit := Token.split_append inKey c.rest
  rw [split] at hsplit
  have hend : ∀ x, t'.peek? = some x → Token.continues inKey x = false := by
    rcases fits with hsame | hcuts
    · obtain ⟨y, l', rfl⟩ := List.exists_cons_of_ne_nil nonempty
      obtain ⟨_, m, _, _, rfl⟩ := Token.split_eq_cons.1 split
      intro x hx
      rw [hsame] at hx
      exact head?_dropWhile_eq_false (Token.continues inKey) m x hx
    · exact fun x hx => (hcuts x hx).1
  obtain ⟨hsplit', ht'⟩ := Token.split_of_sameSpan h split nonempty hend
  refine ⟨?_, hsplit', ht'⟩
  have hrest := Token.split_append inKey t.rest
  rw [hsplit'] at hrest
  rw [← hsplit] at noRaw
  rw [← hrest]
  rcases fits with hsame | hcuts
  · rwa [Literal.rawQuotation?_congr nonempty hsame]
  · rw [Option.eq_none_iff_forall_ne_some]
    intro quotation hraw
    obtain ⟨m, hm, isQuotation⟩ := Literal.rawQuotation?_eq_some.1 hraw
    match l, nonempty with
    | [_], _ =>
      obtain ⟨_, hm⟩ := List.cons.inj hm
      exact (hcuts quotation (by rw [Cursor.peek?, show t'.rest = _ from hm]; rfl)).2 isQuotation
    | x :: y :: l, _ =>
      obtain ⟨rfl, hm⟩ := List.cons.inj hm
      obtain ⟨rfl, _⟩ := List.cons.inj hm
      have hraw' := Literal.rawQuotation?_eq_some.2 ⟨l ++ rest, rfl, isQuotation⟩
      exact absurd (hraw'.symm.trans noRaw) (by simp)

/-- A call with its name and parameters in another text. -/
theorem Cursor.SameSpan.call {inKey : Bool} {l rest : List Char} {y : Char}
    {broken broken' : Bool} {c₃ : Cursor} (h : SameSpan c c₃.next t t')
    (noRaw : Literal.rawQuotation? c.rest = none) (split : Token.split inKey c.rest = (l, rest))
    (nonempty : l ≠ []) (blanks : Scan.blanks (c.pass l rest) = .ok broken c₁)
    (opens : c₁.peek? = some '(') (blanks' : Scan.blanks c₁.next = .ok broken' c₂)
    (inside : c₂.Leads c₃) (closes : c₃.peek? = some ')') (begins : c₂.peek? = some y)
    (hy : y ≠ '<') :
    ∃ rest' t₁ t₂ t₃, Literal.rawQuotation? t.rest = none ∧
      Token.split inKey t.rest = (l, rest') ∧ Scan.blanks (t.pass l rest') = .ok broken t₁ ∧
      t₁.peek? = some '(' ∧ Scan.blanks t₁.next = .ok broken' t₂ ∧ SameSpan c₂ c₃ t₂ t₃ ∧
      SameLine c₂ t₂ ∧ t₃.peek? = c₃.peek? ∧ t' = t₃.next := by
  have hparams : c₁.Leads c₃.next :=
    (Leads.next c₁).trans ((Scan.leads_of_blanks blanks').trans (inside.trans (Leads.next c₃)))
  obtain ⟨t₀, hname, hafter⟩ :=
    h.split (Token.leads_pass split) ((Scan.leads_of_blanks blanks).trans hparams)
  obtain ⟨t₁, hgap, hlisting⟩ := hafter.split (Scan.leads_of_blanks blanks) hparams
  obtain ⟨t₂, t₃, hopens, hblanks', hinside, hline, hcloses, hend⟩ :=
    hlisting.listing opens (by decide) blanks' inside closes begins hy
  have hpeek := hgap.peek?_of_end (hopens.trans opens.symm)
  obtain ⟨hraw, hsplit, ht₀⟩ := hname.token noRaw split nonempty (.inl hpeek)
  -- A name begins with no blank, so the line behind it is not blank in either text.
  obtain ⟨x, m, hl⟩ := List.exists_cons_of_ne_nil nonempty
  obtain ⟨hx, m, hrest, _⟩ := Token.split_eq_cons.1 (hl ▸ split)
  have hline₀ : SameLine (c.pass l rest) t₀ :=
    hname.line_of_begins (by simp [Cursor.peek?, hrest]) (Token.isBlank_of_starts hx)
      (Token.length_lt split nonempty)
  have hblanks := Scan.blanks_of_sameSpan hgap hline₀ opens hopens (by decide) blanks
  rw [ht₀] at hblanks
  exact ⟨_, t₁, t₂, t₃, hraw, hsplit, hblanks, hopens, hblanks', hinside, hline, hcloses, hend⟩

/-- The first part of a listing in another text, and what separates it from the rest. -/
theorem Cursor.SameSpan.part {closing : Option Char} {refusal : Option ColonRefusal}
    {separator : Separator} {y : Char} (h : SameSpan c c' t t') (line : SameLine c t)
    (hend : t'.peek? = c'.peek?) (first : c.Leads c₁)
    (separated : Scan.separator closing refusal c₁ = .ok separator c₂) (more : c₂.Leads c')
    (begins : c₂.peek? = some y) (hy : y ≠ '<' ∧ y ≠ '(') :
    ∃ t₁ t₂, SameSpan c c₁ t t₁ ∧ t₁.peek? = c₁.peek? ∧ t₁.OpensNoCall ∧
      Scan.separator closing refusal t₁ = .ok separator t₂ ∧ SameSpan c₂ c' t₂ t' ∧
      SameLine c₂ t₂ := by
  have hleads := Scan.leads_of_separator separated
  obtain ⟨t₁, h₁, hafter⟩ := h.split first (hleads.trans more)
  obtain ⟨t₂, h₂, hmore⟩ := hafter.split hleads more
  have hpeek₂ := (hmore.peek?_of_end hend).trans begins
  have hline₁ := h₁.line line
  have hseparated := Scan.separator_of_sameSpan h₂ hline₁ begins hpeek₂ hy.1 separated
  exact ⟨t₁, t₂, h₁, hafter.peek?_of_end hend,
    opensNoCall_of_separator hseparated (by simpa [hpeek₂] using hy.2), hseparated, hmore,
    h₂.line hline₁⟩

theorem Cursor.BeginsItem.of_sameSpan {closing : Option Char} (h : c.BeginsItem closing)
    (span : SameSpan c c' t t') (hend : t'.peek? = c'.peek?) : t.BeginsItem closing := by
  obtain ⟨x, hpeek, hx⟩ := h
  exact ⟨x, (span.peek?_of_end hend).trans hpeek, hx⟩

/-- A phrase reads the same in surroundings that agree on what it looks at in them. -/
theorem Reads.of_sameSpan {phrase : Phrase} (h : Reads resolves phrase c c')
    (span : SameSpan c c' t t') (fits : phrase.Fits c c' t t') : Reads resolves phrase t t' := by
  -- Inside of a phrase, what follows each part agrees; so the parts fit if the whole does.
  induction h generalizing t t' with
  | @hash forced inKey h broken c c₁ c₂ opens blanks inner ih =>
    obtain ⟨y, begins, hy, _⟩ := inner.entries_begin (.inl rfl)
    obtain ⟨t₁, t₂, hopens, hblanks, hinside, hline, hcloses, rfl⟩ :=
      span.listing opens (by decide) blanks inner.leads inner.entries_end begins hy
    exact .hash hopens hblanks (ih hinside ⟨⟨_, rfl, .inl rfl⟩, hline, hcloses⟩)
  | sequence opens blanks inner ih =>
    obtain ⟨y, begins, hy, _⟩ := inner.items_begin (.inr (.inl rfl))
    obtain ⟨t₁, t₂, hopens, hblanks, hinside, hline, hcloses, rfl⟩ :=
      span.listing opens (by decide) blanks inner.leads inner.items_end begins hy
    exact .sequence hopens hblanks (ih hinside ⟨⟨_, rfl, .inr (.inl rfl)⟩, hline, hcloses⟩)
  | quoted opens isQuotation literal =>
    obtain ⟨hopens, hliteral⟩ := Scan.quoted_of_sameSpan span opens isQuotation literal
    exact .quoted hopens isQuotation hliteral
  | raw opens literal =>
    obtain ⟨hopens, hliteral⟩ := Scan.raw_of_sameSpan span opens literal
    exact .raw hopens hliteral
  | token noRaw split nonempty blanks noCall =>
    obtain ⟨hcuts, broken', t₁, hblanks, hcall⟩ := fits
    obtain ⟨hraw, hsplit, ht'⟩ := span.token noRaw split nonempty hcuts
    rw [ht'] at hblanks ⊢
    exact .token hraw hsplit nonempty hblanks hcall
  | call noRaw split nonempty blanks opens blanks' inner result ih =>
    obtain ⟨y, begins, hy, _⟩ := inner.items_begin (.inr (.inr rfl))
    obtain ⟨rest', t₁, t₂, t₃, hraw, hsplit, hblanks, hopens, hblanks', hinside, hline, hcloses,
      rfl⟩ := span.call noRaw split nonempty blanks opens blanks' inner.leads inner.items_end begins
        hy
    exact .call hraw hsplit nonempty hblanks hopens hblanks'
      (ih hinside ⟨⟨_, rfl, .inr (.inr rfl)⟩, hline, hcloses⟩) result
  | keyCall noRaw split nonempty blanks opens blanks' inner ih =>
    obtain ⟨y, begins, hy, _⟩ := inner.items_begin (.inr (.inr rfl))
    obtain ⟨rest', t₁, t₂, t₃, hraw, hsplit, hblanks, hopens, hblanks', hinside, hline, hcloses,
      rfl⟩ := span.call noRaw split nonempty blanks opens blanks' inner.leads inner.items_end begins
        hy
    exact .keyCall hraw hsplit nonempty hblanks hopens hblanks'
      (ih hinside ⟨⟨_, rfl, .inr (.inr rfl)⟩, hline, hcloses⟩)
  | noItems closes =>
    obtain rfl := span.eq_of_refl
    exact .noItems (fits.2.2.trans closes)
  | item begins first separated more ih ih' =>
    obtain ⟨⟨b, rfl, closes⟩, line, hend⟩ := fits
    obtain ⟨y, hbegin, hy⟩ := more.items_begin closes
    obtain ⟨t₁, t₂, hfirst, hpeek, hcall, hseparated, hmore, hline⟩ :=
      span.part line hend first.leads separated more.leads hbegin hy
    exact .item (begins.of_sameSpan span hend) (ih hfirst ⟨.inl hpeek, hcall⟩) hseparated
      (ih' hmore ⟨⟨b, rfl, closes⟩, hline, hend⟩)
  | noEntries closes =>
    obtain rfl := span.eq_of_refl
    exact .noEntries (fits.2.2.trans closes)
  | pair begins first means colon hasValue second separated more ih ih' ih'' =>
    obtain ⟨⟨b, rfl, closes⟩, line, hend⟩ := fits
    obtain ⟨y, hbegin, hy⟩ := more.entries_begin closes
    obtain ⟨z, hbegin', hz⟩ := second.exists_mayBegin
    have hleads := (Scan.leads_of_separator separated).trans more.leads
    obtain ⟨t₁, t₂, hfirst, hpeek, hcall, hcolon, hafter, hline⟩ :=
      span.part line hend first.leads colon (second.leads.trans hleads) hbegin'
        ⟨hz.ne (by decide), hz.ne (by decide)⟩
    obtain ⟨t₃, t₄, hsecond, hpeek', hcall', hseparated, hmore, hline'⟩ :=
      hafter.part hline hend second.leads separated more.leads hbegin hy
    have hvalue := (hafter.peek?_of_end hend).trans hbegin'
    exact .pair (begins.of_sameSpan span hend) (ih hfirst ⟨.inl hpeek, hcall⟩) means hcolon
      (by rintro h; simp [Cursor.peek?, h] at hvalue) (ih' hsecond ⟨.inl hpeek', hcall'⟩) hseparated
      (ih'' hmore ⟨⟨b, rfl, closes⟩, hline', hend⟩)
  | flag begins first separated noColon more ih ih' =>
    obtain ⟨⟨b, rfl, closes⟩, line, hend⟩ := fits
    obtain ⟨y, hbegin, hy⟩ := more.entries_begin closes
    obtain ⟨t₁, t₂, hfirst, hpeek, hcall, hseparated, hmore, hline⟩ :=
      span.part line hend first.leads separated more.leads hbegin hy
    exact .flag (begins.of_sameSpan span hend) (ih hfirst ⟨.inl hpeek, hcall⟩) hseparated noColon
      (ih' hmore ⟨⟨b, rfl, closes⟩, hline, hend⟩)
  | merge begins first means separated noColon more ih ih' =>
    obtain ⟨⟨b, rfl, closes⟩, line, hend⟩ := fits
    obtain ⟨y, hbegin, hy⟩ := more.entries_begin closes
    obtain ⟨t₁, t₂, hfirst, hpeek, hcall, hseparated, hmore, hline⟩ :=
      span.part line hend first.leads separated more.leads hbegin hy
    exact .merge (begins.of_sameSpan span hend) (ih hfirst ⟨.inl hpeek, hcall⟩) means hseparated
      noColon (ih' hmore ⟨⟨b, rfl, closes⟩, hline, hend⟩)

end TextualData
