import TextualData.Proofs.EnclosedReading

/-!
# What reads in a text in brackets

What reads in the enclosed text reads in the text as well, or has taken up the new bracket. A
listing that ends at the new bracket ends with the text; an expression that has taken up the bracket
is at the end of the enclosed text, and nothing comes after it.
-/

namespace TextualData

variable {b : Brackets} {closing : Option Char} {refusal : Option ColonRefusal} {broken : Bool}
  {sep : Separator} {c c' d : Cursor} {x : Char}

/-- The rest of a listing, whichever way it ends. -/
inductive Phrase.IsRest : (Option Char → Phrase) → Prop where
  | items (forced : Bool) (vs : List Value) : IsRest fun closing => items closing forced vs
  | entries (forced : Bool) (old new : Hash) : IsRest fun closing => entries closing forced old new

namespace Phrase.IsRest

variable {resolves : FunctionCall → Value → Prop} {rest : Option Char → Phrase}

/-- In brackets, the rest of a listing is not at the end of the window. -/
theorem peek?_ne_none (h : IsRest rest) (hread : Reads resolves (rest (some x)) c c') :
    c.peek? ≠ none := by
  cases h with
  | items forced vs => exact (hread.items_beginsRest (b := .curly)).1 (by simp)
  | entries forced old new => exact (hread.entries_beginsRest (b := .curly)).1 (by simp)

/-- The rest of a listing begins with the new bracket only if that closes it. -/
theorem eq_closing (h : IsRest rest) (hread : Reads resolves (rest (some x)) c c')
    (hpeek : c.peek? = some b.closing) : x = b.closing := by
  cases h with
  | items forced vs =>
    cases hread with
    | noItems closes => exact Option.some.inj (closes.symm.trans hpeek)
    | item _ first => exact absurd hpeek first.begins_ne.1
  | entries forced old new =>
    cases hread with
    | noEntries closes => exact Option.some.inj (closes.symm.trans hpeek)
    | pair _ first | flag _ first | merge _ first => exact absurd hpeek first.begins_ne.1

/-- Where a listing is closed its rest is nothing, and reads so wherever a listing may end. -/
theorem closed (h : IsRest rest) (hread : Reads resolves (rest closing) c c')
    (closes : c.peek? = closing) : c' = c ∧
      ∀ {closing' d}, Cursor.peek? d = closing' → Reads resolves (rest closing') d d := by
  cases h with
  | items forced vs =>
    obtain ⟨rfl, rfl⟩ := hread.items_eq_nil closes
    exact ⟨rfl, .noItems⟩
  | entries forced old new =>
    obtain ⟨rfl, rfl⟩ := hread.entries_eq closes
    exact ⟨rfl, .noEntries⟩

end Phrase.IsRest

/-- The rest of a listing of the enclosed text ends inside the text, or at the new bracket with the
text read to its end. -/
def EndsIn (resolves : FunctionCall → Value → Prop) (b : Brackets) (rest : Option Char → Phrase)
    (x : Char) (c d' : Cursor) : Prop :=
  (∃ c', d' = c'.enclosed b ∧ Reads resolves (rest (some x)) c c') ∨
    x = b.closing ∧ ∃ c', c'.rest = [] ∧ d' = c'.reached b ∧ Reads resolves (rest none) c c'

/-- What a phrase of the enclosed text is in the text. An expression may have taken up the new
bracket, and leads to the end of the enclosed text then. -/
def StandsIn (resolves : FunctionCall → Value → Prop) (b : Brackets) :
    Phrase → Cursor → Cursor → Prop
  | .value forced inKey v, d, d' => ∀ c, d = c.enclosed b →
    (∃ c', d' = c'.enclosed b ∧ Reads resolves (.value forced inKey v) c c') ∨ d'.rest = []
  | .items closing forced vs, d, d' => ∀ x c, closing = some x → d = c.reached b →
    EndsIn resolves b (fun closing => .items closing forced vs) x c d'
  | .entries closing forced old new, d, d' => ∀ x c, closing = some x → d = c.reached b →
    EndsIn resolves b (fun closing => .entries closing forced old new) x c d'

section
variable {resolves : FunctionCall → Value → Prop}

/-- After a separator of the enclosed text the listing ends as its rest does. -/
theorem EndsIn.of_separator {rest rest' : Option Char → Phrase} {c₁ d₂ d₃ : Cursor}
    (hrest : Phrase.IsRest rest)
    (separated : Scan.separator (some x) refusal (c₁.enclosed b) = .ok sep d₂)
    (more : Reads resolves (rest (some x)) d₂ d₃)
    (ih : ∀ c₂, d₂ = c₂.reached b → EndsIn resolves b rest x c₂ d₃)
    (extend : ∀ {closing c₂ c₃}, closing = none ∨ closing = some x →
      Scan.separator closing refusal c₁ = .ok sep c₂ → Reads resolves (rest closing) c₂ c₃ →
      Reads resolves (rest' closing) c c₃) : EndsIn resolves b rest' x c d₃ := by
  -- A listing ends at its separator, where nothing of it is left, or goes on as its rest does.
  by_cases hsep : sep = .closing
  · subst hsep
    obtain ⟨rfl, hclosed⟩ := hrest.closed more (peek?_of_separator_closing separated)
    obtain ⟨_, _, hblanks, hs⟩ := separator_eq_ok.1 separated
    obtain ⟨broken, c₂, hb, rfl, rfl⟩ := Scan.of_blanks_enclosed hblanks
    obtain ⟨rfl, ⟨he, hpeek, hs⟩ | ⟨hx, hr, hs⟩⟩ := hs.of_closing_enclosed
    · exact .inl ⟨c₂, he, extend (.inr rfl) (separator_eq_ok.2 ⟨_, _, hb, hs⟩) (hclosed hpeek)⟩
    · have hend : c₂.peek? = none := by simp [Cursor.peek?, hr]
      exact .inr ⟨hx, c₂, hr, rfl,
        extend (.inl rfl) (separator_eq_ok.2 ⟨_, _, hb, hs⟩) (hclosed hend)⟩
  · obtain ⟨c₂, rfl, hs⟩ := Scan.of_separator_enclosed separated hsep (hrest.eq_closing more)
    rcases ih c₂ rfl with ⟨c₃, he, hread⟩ | ⟨hx, c₃, hr, he, hread⟩
    · exact .inl ⟨c₃, he, extend (.inr rfl) (hs _ (.inr rfl)) hread⟩
    · exact .inr ⟨hx, c₃, hr, he, extend (.inl rfl) (hs _ (.inl rfl)) hread⟩

/-- Nothing of a listing comes after an expression that has taken up the new bracket. -/
theorem StandsIn.value_of_separator {forced inKey : Bool} {v : Value} {d₁ d₂ : Cursor}
    (h : StandsIn resolves b (.value forced inKey v) (c.enclosed b) d₁)
    (separated : Scan.separator (some x) refusal d₁ = .ok sep d₂) (hd₂ : d₂.peek? ≠ none) :
    ∃ c₁, d₁ = c₁.enclosed b ∧ Reads resolves (.value forced inKey v) c c₁ := by
  -- At the end of the enclosed text there is no separator.
  rcases h c rfl with h | hend
  · exact h
  · have hle := (Scan.leads_of_separator separated).length_le
    rw [hend, List.length_nil, Nat.le_zero] at hle
    have hr : d₂.rest = [] := List.length_eq_zero_iff.1 hle
    exact absurd (by simp [Cursor.peek?, hr]) hd₂

/-- An item of the enclosed text begins where one of the text does. -/
theorem Cursor.BeginsItem.of_enclosed {forced inKey : Bool} {v : Value}
    (h : (c.reached b).BeginsItem (some x))
    (hv : Reads resolves (.value forced inKey v) (c.reached b) d) :
    c.reached b = c.enclosed b ∧
      ∀ {closing}, closing = none ∨ closing = some x → c.BeginsItem closing := by
  obtain ⟨y, hpeek, hne, hcomma⟩ := h
  rcases peek?_reached hpeek with ⟨hy, he⟩ | ⟨rfl, _⟩
  · refine ⟨he, ?_⟩
    rintro _ (rfl | rfl)
    · exact ⟨y, hy, by simp, hcomma⟩
    · exact ⟨y, hy, hne, hcomma⟩
  · exact absurd hpeek hv.begins_ne.1

/-- An item of the enclosed text with a separator behind it is one of the text. -/
theorem StandsIn.item {forced inKey : Bool} {v : Value} {d₁ d₂ : Cursor}
    (h : StandsIn resolves b (.value forced inKey v) (c.reached b) d₁)
    (begins : (c.reached b).BeginsItem (some x))
    (first : Reads resolves (.value forced inKey v) (c.reached b) d₁)
    (separated : Scan.separator (some x) refusal d₁ = .ok sep d₂) (hd₂ : d₂.peek? ≠ none) :
    ∃ c₁, d₁ = c₁.enclosed b ∧ Reads resolves (.value forced inKey v) c c₁ ∧
      ∀ {closing}, closing = none ∨ closing = some x → c.BeginsItem closing := by
  obtain ⟨he, hbegins⟩ := begins.of_enclosed first
  rw [he] at h
  obtain ⟨c₁, hd₁, hread⟩ := h.value_of_separator separated hd₂
  exact ⟨c₁, hd₁, hread, hbegins⟩

/-- In a listing of the enclosed text that is not ended by the new bracket, the closing bracket is
passed inside the text. -/
theorem EndsIn.next {rest : Option Char → Phrase} (h : EndsIn resolves b rest x c d)
    (ends : ∀ {c'}, Reads resolves (rest (some x)) c c' → c'.peek? = some x) :
    (∃ c', d.next = c'.next.enclosed b ∧ Reads resolves (rest (some x)) c c') ∨
      d.next.rest = [] := by
  rcases h with ⟨c', rfl, hread⟩ | ⟨_, c', hr, rfl, _⟩
  · exact .inl ⟨c', Cursor.enclosed_next (Cursor.rest_ne_of_peek? (ends hread)), hread⟩
  · exact .inr (by simp [Cursor.reached, hr, Cursor.next])

/-- A listing of the enclosed text that is closed where blanks lead ends there. -/
theorem EndsIn.of_closes {rest : Option Char → Phrase} (closes : (c.reached b).peek? = some x)
    (hread : ∀ {closing}, c.peek? = closing → Reads resolves (rest closing) c c) :
    EndsIn resolves b rest x c (c.reached b) := by
  rcases Cursor.peek?_reached closes with ⟨hpeek, he⟩ | ⟨hx, hr⟩
  · exact .inl ⟨c, he, hread hpeek⟩
  · exact .inr ⟨hx, c, hr, rfl, hread (by simp [Cursor.peek?, hr])⟩

/-- A token of the enclosed text with the blanks after it, in the text. -/
theorem Token.of_enclosed {inKey : Bool} {l rest : List Char}
    (split : Token.split inKey (c.enclosed b).rest = (l, rest))
    (blanks : Scan.blanks ((c.enclosed b).pass l rest) = .ok broken d) :
    ∃ rest' broken' c', Token.split inKey c.rest = (l, rest') ∧
      (c.enclosed b).pass l rest = (c.pass l rest').enclosed b ∧
      Scan.blanks (c.pass l rest') = .ok broken' c' ∧ d = c'.reached b := by
  rw [Cursor.enclosed, split_enclosed] at split
  simp only [Prod.mk.injEq] at split
  obtain ⟨hl, rfl⟩ := split
  have hpass := Cursor.enclosed_pass (b := b) (c := c) l (Token.split inKey c.rest).2
  rw [hpass] at blanks
  obtain ⟨broken', c', hb, _, rfl⟩ := Scan.of_blanks_enclosed blanks
  exact ⟨_, broken', c', Prod.ext hl rfl, hpass, hb, rfl⟩

/-- An opening bracket of the enclosed text with the blanks behind it, in the text. -/
theorem Scan.opening_of_enclosed (opens : (c.enclosed b).peek? = some x) (hx : x ≠ '\n')
    (blanks : Scan.blanks (c.enclosed b).next = .ok broken d) :
    ∃ broken' c', c.peek? = some x ∧ Scan.blanks c.next = .ok broken' c' ∧ d = c'.reached b := by
  obtain ⟨hrest, hpeek⟩ := Cursor.of_peek?_enclosed opens hx
  rw [Cursor.enclosed_next hrest] at blanks
  obtain ⟨broken', c', hb, _, hd⟩ := Scan.of_blanks_enclosed blanks
  exact ⟨broken', c', hpeek, hb, hd⟩

/-- The name of a call of the enclosed text with its parenthesis and the blanks behind it, in the
text. -/
theorem Token.call_of_enclosed {inKey broken' : Bool} {l rest : List Char} {d' : Cursor}
    (split : Token.split inKey (c.enclosed b).rest = (l, rest))
    (blanks : Scan.blanks ((c.enclosed b).pass l rest) = .ok broken d)
    (opens : d.peek? = some '(') (blanks' : Scan.blanks d.next = .ok broken' d') :
    ∃ rest' left left' c₁ c₂, Token.split inKey c.rest = (l, rest') ∧
      Scan.blanks (c.pass l rest') = .ok left c₁ ∧ c₁.peek? = some '(' ∧
      Scan.blanks c₁.next = .ok left' c₂ ∧ d' = c₂.reached b := by
  obtain ⟨rest', left, c₁, hsplit, _, hb, rfl⟩ := Token.of_enclosed split blanks
  have hpeek := Cursor.of_peek?_reached opens (by cases b <;> decide)
  rw [Cursor.reached_next hpeek] at blanks'
  obtain ⟨left', c₂, hb', _, hd'⟩ := Scan.of_blanks_enclosed blanks'
  exact ⟨rest', left, left', c₁, c₂, hsplit, hb, hpeek, hb', hd'⟩

/-- What reads in the enclosed text stands in the text. -/
theorem Reads.standsIn {phrase : Phrase} (h : Reads resolves phrase d d') :
    StandsIn resolves b phrase d d' := by
  -- In each listing the invariant holds of the rest; a bracket that closes it inside the text is
  -- one of the text, and the new one leaves nothing after it.
  induction h with
  | hash opens blanks inner ih =>
    rintro c rfl
    obtain ⟨broken, c₁, hpeek, hb, rfl⟩ := Scan.opening_of_enclosed opens (by decide) blanks
    rcases (ih _ _ rfl rfl).next Reads.entries_end with ⟨c', he, hread⟩ | hend
    · exact .inl ⟨_, he, .hash hpeek hb hread⟩
    · exact .inr hend
  | sequence opens blanks inner ih =>
    rintro c rfl
    obtain ⟨broken, c₁, hpeek, hb, rfl⟩ := Scan.opening_of_enclosed opens (by decide) blanks
    rcases (ih _ _ rfl rfl).next Reads.items_end with ⟨c', he, hread⟩ | hend
    · exact .inl ⟨_, he, .sequence hpeek hb hread⟩
    · exact .inr hend
  | quoted opens isQuotation literal =>
    rintro c rfl
    obtain ⟨_, hpeek⟩ := Cursor.of_peek?_enclosed opens
      (by rintro rfl; exact absurd isQuotation (by decide))
    obtain ⟨c', hc', he⟩ := Scan.of_quoted_enclosed hpeek isQuotation literal
    exact .inl ⟨c', he, .quoted hpeek isQuotation hc'⟩
  | raw opens literal =>
    rintro c rfl
    have hopens := (Literal.rawQuotation?_append c.rest b).symm.trans opens
    obtain ⟨c', hc', he⟩ := (Scan.raw_enclosed_iff hopens).1 literal
    exact .inl ⟨c', he, .raw hopens hc'⟩
  | token noRaw split nonempty blanks noCall =>
    rintro c rfl
    obtain ⟨rest', broken', c', hsplit, he, hb, rfl⟩ := Token.of_enclosed split blanks
    have hraw := (Literal.rawQuotation?_append c.rest b).symm.trans noRaw
    exact .inl ⟨_, he, .token hraw hsplit nonempty hb
      fun hcall => noCall (Cursor.peek?_reached_of hcall)⟩
  | call noRaw split nonempty blanks opens blanks' inner result ih =>
    rintro c rfl
    obtain ⟨rest', _, _, c₁, c₂, hsplit, hb, hpeek, hb', rfl⟩ :=
      Token.call_of_enclosed split blanks opens blanks'
    have hraw := (Literal.rawQuotation?_append c.rest b).symm.trans noRaw
    rcases (ih _ _ rfl rfl).next Reads.items_end with ⟨c', he, hread⟩ | hend
    · exact .inl ⟨_, he, .call hraw hsplit nonempty hb hpeek hb' hread result⟩
    · exact .inr hend
  | keyCall noRaw split nonempty blanks opens blanks' inner ih =>
    rintro c rfl
    obtain ⟨rest', _, _, c₁, c₂, hsplit, hb, hpeek, hb', rfl⟩ :=
      Token.call_of_enclosed split blanks opens blanks'
    have hraw := (Literal.rawQuotation?_append c.rest b).symm.trans noRaw
    rcases (ih _ _ rfl rfl).next Reads.items_end with ⟨c', he, hread⟩ | hend
    · exact .inl ⟨_, he, .keyCall hraw hsplit nonempty hb hpeek hb' hread⟩
    · exact .inr hend
  | noItems closes =>
    rintro x c rfl rfl
    exact .of_closes closes .noItems
  | item begins first separated more ih ih' =>
    rintro x c rfl rfl
    obtain ⟨c₁, rfl, hfirst, hbegins⟩ := ih.item begins first separated
      ((Phrase.IsRest.items _ _).peek?_ne_none more)
    exact .of_separator (.items _ _) separated more (fun c₂ => ih' x c₂ rfl)
      fun hclosing hsep hmore => .item (hbegins hclosing) hfirst hsep hmore
  | noEntries closes =>
    rintro x c rfl rfl
    exact .of_closes closes .noEntries
  | pair begins first means colon hasValue second separated more ih ih' ih'' =>
    rintro x c rfl rfl
    obtain ⟨c₁, rfl, hfirst, hbegins⟩ := ih.item begins first colon
      ((second.value_beginsRest (b := b) (some x)).1 (by simp))
    obtain ⟨c₂, rfl, hcolon⟩ := Scan.of_separator_enclosed colon (by simp)
      fun hpeek => absurd hpeek second.begins_ne.1
    obtain ⟨hr, he⟩ := Cursor.reached_of_peek?_ne second.begins_ne.1
    rw [he] at ih'
    obtain ⟨c₃, rfl, hsecond⟩ := ih'.value_of_separator separated
      ((Phrase.IsRest.entries _ _ _).peek?_ne_none more)
    exact .of_separator (.entries _ _ _) separated more (fun c₄ => ih'' x c₄ rfl)
      fun hclosing hsep hmore => .pair (hbegins hclosing) hfirst means (hcolon _ hclosing) hr
        hsecond hsep hmore
  | flag begins first separated noColon more ih ih' =>
    rintro x c rfl rfl
    obtain ⟨c₁, rfl, hfirst, hbegins⟩ := ih.item begins first separated
      ((Phrase.IsRest.entries _ _ _).peek?_ne_none more)
    exact .of_separator (.entries _ _ _) separated more (fun c₂ => ih' x c₂ rfl)
      fun hclosing hsep hmore => .flag (hbegins hclosing) hfirst hsep noColon hmore
  | merge begins first means separated noColon more ih ih' =>
    rintro x c rfl rfl
    obtain ⟨c₁, rfl, hfirst, hbegins⟩ := ih.item begins first separated
      ((Phrase.IsRest.entries _ _ _).peek?_ne_none more)
    exact .of_separator (.entries _ _ _) separated more (fun c₂ => ih' x c₂ rfl)
      fun hclosing hsep hmore => .merge (hbegins hclosing) hfirst means hsep noColon hmore

end

end TextualData
