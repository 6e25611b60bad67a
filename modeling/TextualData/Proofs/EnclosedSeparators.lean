import TextualData.Proofs.Enclosure
import TextualData.Proofs.FirstCharacters

/-!
# Separators in brackets

When a text is enclosed in brackets, the separators of its listings stay what they are, except that
the new bracket is where the text ended. A separator of the enclosed text is one of the text in the
same way, unless the new bracket stands where something would have to begin.
-/

namespace TextualData

variable {b : Brackets} {closing : Option Char} {refusal : Option ColonRefusal} {broken : Bool}
  {sep : Separator} {c c' d : Cursor} {x : Char}

theorem Brackets.closing_noMark (b : Brackets) :
    some b.closing ≠ some '+' ∧ some b.closing ≠ some ':' ∧ some b.closing ≠ some ',' := by
  cases b <;> decide

/-- A separator of the text is one of the enclosed text, where a listing without brackets is closed
by the new bracket. -/
theorem SeparatorAt.enclosed (h : SeparatorAt closing refusal broken c sep c')
    (hfinished : sep ≠ .unfinished) (hearly : closing = none → c'.peek? ≠ some b.closing) :
    SeparatorAt (some (closing.getD b.closing)) refusal (broken || c.rest.isEmpty) (c.reached b) sep
      (c'.reached b) := by
  cases h with
  | closing closes noMark =>
    -- A listing that ended with the text ends at the new bracket.
    cases closing with
    | none =>
      have hr : c.rest = [] := List.head?_eq_none_iff.1 closes
      refine .closing ?_ b.closing_noMark
      simp [Cursor.reached, hr, Cursor.peek?]
    | some x => exact .closing (Cursor.peek?_reached_of closes) noMark
  | unfinished => exact absurd rfl hfinished
  | colon mark allowed blanks =>
    have h := Scan.blanks_enclosed (b := b) blanks
    rw [← Cursor.reached_next mark] at h
    exact .colon (Cursor.peek?_reached_of mark) allowed h
  | comma mark blanks =>
    have h := Scan.blanks_enclosed (b := b) blanks
    rw [← Cursor.reached_next mark] at h
    exact .comma (Cursor.peek?_reached_of mark) h
  | lineBreak next goesOn noMark isBroken =>
    refine .lineBreak (Cursor.peek?_reached_of next) ?_ noMark (by simp [isBroken])
    cases closing with
    | none => exact fun h => hearly rfl (next.trans h.symm)
    | some y => exact goesOn

/-- The end of a listing in the enclosed text is its end in the text, or the new bracket. -/
theorem SeparatorAt.of_closing_enclosed
    (h : SeparatorAt (some x) refusal (broken || c.rest.isEmpty) (c.reached b) .closing d) :
    d = c.reached b ∧ (c.reached b = c.enclosed b ∧ c.peek? = some x ∧
        SeparatorAt (some x) refusal broken c .closing c ∨
      x = b.closing ∧ c.rest = [] ∧ SeparatorAt none refusal broken c .closing c) := by
  cases h with
  | closing closes noMark =>
    refine ⟨rfl, ?_⟩
    rcases Cursor.peek?_reached closes with ⟨hpeek, he⟩ | ⟨hx, hr⟩
    · exact .inl ⟨he, hpeek, .closing hpeek noMark⟩
    · refine .inr ⟨hx, hr, .closing ?_ ⟨by simp, by simp, by simp⟩⟩
      simp [Cursor.peek?, hr]

/-- Any other separator of the enclosed text is one of the text, whichever way the listing ends,
unless the new bracket stands where an item would have to begin. -/
theorem SeparatorAt.of_enclosed
    (h : SeparatorAt (some x) refusal (broken || c.rest.isEmpty) (c.reached b) sep d)
    (hsep : sep ≠ .closing) : ∃ c', d = c'.reached b ∧
      (SeparatorAt (some x) refusal broken c sep c' ∧ SeparatorAt none refusal broken c sep c' ∨
        x ≠ b.closing ∧ c'.rest = []) := by
  cases h with
  | closing => exact absurd rfl hsep
  | unfinished ends => exact absurd ends Cursor.peek?_reached_ne_none
  | colon mark allowed blanks =>
    rcases Cursor.peek?_reached mark with ⟨hpeek, _⟩ | ⟨hx, _⟩
    · rw [Cursor.reached_next hpeek] at blanks
      obtain ⟨broken', c', hb, _, rfl⟩ := Scan.of_blanks_enclosed blanks
      exact ⟨c', rfl, .inl ⟨.colon hpeek allowed hb, .colon hpeek allowed hb⟩⟩
    · exact absurd (congrArg some hx.symm) b.closing_noMark.2.1
  | comma mark blanks =>
    rcases Cursor.peek?_reached mark with ⟨hpeek, _⟩ | ⟨hx, _⟩
    · rw [Cursor.reached_next hpeek] at blanks
      obtain ⟨broken', c', hb, _, rfl⟩ := Scan.of_blanks_enclosed blanks
      exact ⟨c', rfl, .inl ⟨.comma hpeek hb, .comma hpeek hb⟩⟩
    · exact absurd (congrArg some hx.symm) b.closing_noMark.2.2
  | lineBreak next goesOn noMark isBroken =>
    refine ⟨c, rfl, ?_⟩
    rcases Cursor.peek?_reached next with ⟨hpeek, _⟩ | ⟨rfl, hr⟩
    · have hbroken : broken = true := by
        simpa [Cursor.rest_ne_of_peek? hpeek] using isBroken
      exact .inl ⟨.lineBreak hpeek goesOn noMark hbroken,
        .lineBreak hpeek (by simp) noMark hbroken⟩
    -- The new bracket stands where the next item would, and closes another listing.
    · exact .inr ⟨fun h => goesOn (congrArg some h), hr⟩

/-- An expression begins neither with the new bracket nor with the line feed before it. -/
theorem Reads.begins_ne {resolves : FunctionCall → Value → Prop} {forced inKey : Bool} {v : Value}
    (h : Reads resolves (.value forced inKey v) c c') :
    c.peek? ≠ some b.closing ∧ c.peek? ≠ some '\n' := by
  obtain ⟨x, hpeek, hx⟩ := h.begins
  have hclosing : ∀ b : Brackets, b.closing ≠ '+' ∧ b.closing ≠ ':' := fun b => by
    cases b <;> decide
  rw [hpeek]
  simp only [ne_eq, Option.some.injEq]
  rcases hx with rfl | rfl | hq | hs
  · exact ⟨by cases b <;> decide, by decide⟩
  · exact ⟨by cases b <;> decide, by decide⟩
  · rcases Literal.isQuotation_iff.1 hq with rfl | rfl
    · exact ⟨by cases b <;> decide, by decide⟩
    · exact ⟨by cases b <;> decide, by decide⟩
  · refine ⟨Token.ne_of_starts hs b.closing_mem_delimiters (hclosing b).1 (hclosing b).2, ?_⟩
    rintro rfl
    cases inKey <;> exact absurd hs (by decide)

/-- Whether the rest of a listing may begin at a place: not at the end of the window if a bracket
has to close it, and not at the new bracket otherwise. -/
def Cursor.BeginsRest (b : Brackets) (closing : Option Char) (c : Cursor) : Prop :=
  (closing ≠ none → c.peek? ≠ none) ∧ (closing = none → c.peek? ≠ some b.closing)

/-- A scan of a separator in the enclosed text, for one in the text. -/
theorem Scan.separator_enclosed (h : Scan.separator closing refusal c = .ok sep c')
    (hrest : c'.BeginsRest b closing) :
    Scan.separator (some (closing.getD b.closing)) refusal (c.enclosed b) =
      .ok sep (c'.reached b) := by
  obtain ⟨broken, c₁, hb, hs⟩ := separator_eq_ok.1 h
  refine separator_eq_ok.2 ⟨_, _, Scan.blanks_enclosed hb, hs.enclosed ?_ hrest.2⟩
  rintro rfl
  cases hs with
  | unfinished ends bracketed => exact hrest.1 bracketed ends

/-- A separator of the enclosed text after which the listing goes on is one of the text. -/
theorem Scan.of_separator_enclosed
    (h : Scan.separator (some x) refusal (c.enclosed b) = .ok sep d) (hsep : sep ≠ .closing)
    (hstuck : d.peek? = some b.closing → x = b.closing) : ∃ c', d = c'.reached b ∧
      ∀ closing, closing = none ∨ closing = some x →
        Scan.separator closing refusal c = .ok sep c' := by
  obtain ⟨_, _, hblanks, hs⟩ := separator_eq_ok.1 h
  obtain ⟨broken, c₁, hb, rfl, rfl⟩ := Scan.of_blanks_enclosed hblanks
  obtain ⟨c', rfl, ⟨hsome, hnone⟩ | ⟨hne, hr⟩⟩ := hs.of_enclosed hsep
  · refine ⟨c', rfl, ?_⟩
    rintro _ (rfl | rfl)
    · exact separator_eq_ok.2 ⟨_, _, hb, hnone⟩
    · exact separator_eq_ok.2 ⟨_, _, hb, hsome⟩
  · exact absurd (hstuck (by simp [Cursor.reached, hr, Cursor.peek?])) hne

end TextualData
