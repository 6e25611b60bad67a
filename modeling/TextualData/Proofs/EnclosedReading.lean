import TextualData.Proofs.EnclosedSeparators

/-!
# Reading a text in brackets

What reads in a text reads in the enclosed text too. Blanks between the end of the text and the new
bracket are passed before the rest of a listing, so that the place of an expression in the enclosed
text is not the place of the rest of a listing there.
-/

namespace TextualData

variable {b : Brackets} {closing : Option Char} {refusal : Option ColonRefusal} {broken : Bool}
  {sep : Separator} {c c' d : Cursor} {x : Char}

namespace Reads

variable {resolves : FunctionCall → Value → Prop} {forced inKey : Bool}

theorem value_beginsRest {v : Value} (h : Reads resolves (.value forced inKey v) c c')
    (closing : Option Char) : c.BeginsRest b closing := by
  refine ⟨fun _ => ?_, fun _ => h.begins_ne.1⟩
  obtain ⟨x, hpeek, _⟩ := h.begins
  simp [hpeek]

theorem noRest_beginsRest (closes : c.peek? = closing) : c.BeginsRest b closing := by
  refine ⟨fun hne => closes ▸ hne, ?_⟩
  rintro rfl
  simp [closes]

theorem items_beginsRest {vs : List Value} (h : Reads resolves (.items closing forced vs) c c') :
    c.BeginsRest b closing := by
  cases h with
  | noItems closes => exact noRest_beginsRest closes
  | item _ first => exact first.value_beginsRest closing

theorem entries_beginsRest {old new : Hash}
    (h : Reads resolves (.entries closing forced old new) c c') : c.BeginsRest b closing := by
  cases h with
  | noEntries closes => exact noRest_beginsRest closes
  | pair _ first | flag _ first | merge _ first => exact first.value_beginsRest closing

end Reads

theorem Cursor.BeginsItem.enclosed {resolves : FunctionCall → Value → Prop} {forced inKey : Bool}
    {v : Value} (h : c.BeginsItem closing) (hv : Reads resolves (.value forced inKey v) c c') :
    c.reached b = c.enclosed b ∧ (c.enclosed b).BeginsItem (some (closing.getD b.closing)) := by
  obtain ⟨x, hpeek, hne, hcomma⟩ := h
  have hrest := Cursor.rest_ne_of_peek? hpeek
  refine ⟨Cursor.reached_of_rest_ne hrest, x, (Cursor.peek?_enclosed hrest).trans hpeek, ?_, hcomma⟩
  cases closing with
  | none =>
    intro h
    exact hv.begins_ne.1 (hpeek.trans h.symm)
  | some y => exact hne

theorem Cursor.peek?_reached_closing (closes : c.peek? = closing) :
    (c.reached b).peek? = some (closing.getD b.closing) := by
  cases closing with
  | none => simp [reached, List.head?_eq_none_iff.1 closes, peek?]
  | some x => exact peek?_reached_of closes

/-- A token of the text with the blanks after it. -/
theorem Token.enclosed {inKey : Bool} {l rest : List Char}
    (split : Token.split inKey c.rest = (l, rest))
    (blanks : Scan.blanks (c.pass l rest) = .ok broken c') :
    Token.split inKey (c.enclosed b).rest = (l, rest ++ ['\n', b.closing]) ∧
      Scan.blanks ((c.pass l rest).enclosed b) =
        .ok (broken || c'.rest.isEmpty) (c'.reached b) := by
  refine ⟨?_, Scan.blanks_enclosed blanks⟩
  rw [Cursor.enclosed, split_enclosed, split]

/-- A name of the text with the parenthesis and the blanks behind it. -/
theorem Token.call_enclosed {inKey broken' : Bool} {l rest : List Char} {c₂ : Cursor}
    (split : Token.split inKey c.rest = (l, rest))
    (blanks : Scan.blanks (c.pass l rest) = .ok broken c') (opens : c'.peek? = some '(')
    (blanks' : Scan.blanks c'.next = .ok broken' c₂) :
    ∃ rest' left left', Token.split inKey (c.enclosed b).rest = (l, rest') ∧
      Scan.blanks ((c.enclosed b).pass l rest') = .ok left (c'.reached b) ∧
      (c'.reached b).peek? = some '(' ∧
      Scan.blanks (c'.reached b).next = .ok left' (c₂.reached b) := by
  obtain ⟨hsplit, hb⟩ := Token.enclosed (b := b) split blanks
  have hb' := Scan.blanks_enclosed (b := b) blanks'
  rw [← Cursor.enclosed_pass] at hb
  rw [← Cursor.reached_next opens] at hb'
  exact ⟨_, _, _, hsplit, hb, Cursor.peek?_reached_of opens, hb'⟩

/-- The phrase of the enclosed text: the new bracket closes what the end of the text ended. -/
def Phrase.enclosed (b : Brackets) : Phrase → Phrase
  | value forced inKey v => value forced inKey v
  | items closing forced vs => items (some (closing.getD b.closing)) forced vs
  | entries closing forced old new => entries (some (closing.getD b.closing)) forced old new

/-- The place of a phrase in the enclosed text: blanks are passed before items and entries. -/
def Phrase.place (b : Brackets) : Phrase → Cursor → Cursor
  | value .. => Cursor.enclosed b
  | items .. | entries .. => Cursor.reached b

/-- What reads in a text reads also in the enclosed one. -/
theorem Reads.enclosed {resolves : FunctionCall → Value → Prop} {phrase : Phrase}
    (b : Brackets) (h : Reads resolves phrase c c') :
    Reads resolves (phrase.enclosed b) (phrase.place b c) (phrase.place b c') := by
  -- The scans that begin an expression find it where it was; those that lead to the rest of a
  -- listing may come to the end of the text, and then go on to the new bracket.
  induction h with
  | hash opens blanks inner ih =>
    have hrest := Cursor.rest_ne_of_peek? opens
    have hb := Scan.blanks_enclosed (b := b) blanks
    simp only [Phrase.enclosed, Phrase.place] at ih ⊢
    rw [← Cursor.enclosed_next hrest] at hb
    rw [← Cursor.reached_next inner.entries_end]
    exact .hash ((Cursor.peek?_enclosed hrest).trans opens) hb ih
  | sequence opens blanks inner ih =>
    have hrest := Cursor.rest_ne_of_peek? opens
    have hb := Scan.blanks_enclosed (b := b) blanks
    simp only [Phrase.enclosed, Phrase.place] at ih ⊢
    rw [← Cursor.enclosed_next hrest] at hb
    rw [← Cursor.reached_next inner.items_end]
    exact .sequence ((Cursor.peek?_enclosed hrest).trans opens) hb ih
  | quoted opens isQuotation literal =>
    exact .quoted ((Cursor.peek?_enclosed (Cursor.rest_ne_of_peek? opens)).trans opens) isQuotation
      (Scan.quoted_enclosed opens isQuotation literal)
  | raw opens literal =>
    exact .raw ((Literal.rawQuotation?_append _ b).trans opens)
      ((Scan.raw_enclosed_iff opens).2 ⟨_, literal, rfl⟩)
  | token noRaw split nonempty blanks noCall =>
    obtain ⟨hsplit, hb⟩ := Token.enclosed (b := b) split blanks
    simp only [Phrase.enclosed, Phrase.place]
    rw [← Cursor.enclosed_pass] at hb ⊢
    refine .token ((Literal.rawQuotation?_append _ b).trans noRaw) hsplit nonempty hb ?_
    intro hcall
    -- The new bracket is no parenthesis.
    rcases Cursor.peek?_reached hcall with ⟨hpeek, _⟩ | ⟨hx, _⟩
    · exact noCall hpeek
    · cases b <;> exact absurd hx (by decide)
  | call noRaw split nonempty blanks opens blanks' inner result ih =>
    obtain ⟨_, _, _, hsplit, hb, hopens, hb'⟩ :=
      Token.call_enclosed (b := b) split blanks opens blanks'
    simp only [Phrase.enclosed, Phrase.place] at ih ⊢
    rw [← Cursor.reached_next inner.items_end]
    exact .call ((Literal.rawQuotation?_append _ b).trans noRaw) hsplit nonempty hb hopens hb' ih
      result
  | keyCall noRaw split nonempty blanks opens blanks' inner ih =>
    obtain ⟨_, _, _, hsplit, hb, hopens, hb'⟩ :=
      Token.call_enclosed (b := b) split blanks opens blanks'
    simp only [Phrase.enclosed, Phrase.place] at ih ⊢
    rw [← Cursor.reached_next inner.items_end]
    exact .keyCall ((Literal.rawQuotation?_append _ b).trans noRaw) hsplit nonempty hb hopens hb'
      ih
  | noItems closes => exact .noItems (Cursor.peek?_reached_closing closes)
  | item begins first separated more ih ih' =>
    obtain ⟨he, hbegins⟩ := begins.enclosed (b := b) first
    simp only [Phrase.enclosed, Phrase.place] at ih ih' ⊢
    rw [he]
    exact .item hbegins ih (Scan.separator_enclosed separated more.items_beginsRest) ih'
  | noEntries closes => exact .noEntries (Cursor.peek?_reached_closing closes)
  | pair begins first means colon hasValue second separated more ih ih' ih'' =>
    obtain ⟨he, hbegins⟩ := begins.enclosed (b := b) first
    have hcolon := Scan.separator_enclosed colon (second.value_beginsRest (b := b) _)
    simp only [Phrase.enclosed, Phrase.place] at ih ih' ih'' ⊢
    rw [Cursor.reached_of_rest_ne hasValue] at hcolon
    rw [he]
    exact .pair hbegins ih means hcolon (by simp [Cursor.enclosed]) ih'
      (Scan.separator_enclosed separated more.entries_beginsRest) ih''
  | flag begins first separated noColon more ih ih' =>
    obtain ⟨he, hbegins⟩ := begins.enclosed (b := b) first
    simp only [Phrase.enclosed, Phrase.place] at ih ih' ⊢
    rw [he]
    exact .flag hbegins ih (Scan.separator_enclosed separated more.entries_beginsRest) noColon ih'
  | merge begins first means separated noColon more ih ih' =>
    obtain ⟨he, hbegins⟩ := begins.enclosed (b := b) first
    simp only [Phrase.enclosed, Phrase.place] at ih ih' ⊢
    rw [he]
    exact .merge hbegins ih means (Scan.separator_enclosed separated more.entries_beginsRest)
      noColon ih'

end TextualData
