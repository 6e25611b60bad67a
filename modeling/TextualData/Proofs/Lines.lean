import TextualData.Proofs.InlineText

/-!
# Lines of a dump

Blanks pass over a line break and over the indentation of a line, and over a whole line that a call
with a number sign takes. Whatever else a line begins with is where they lead.
-/

namespace TextualData

/-- Nothing but blanks stands before a place in its line. -/
def Cursor.BeginsLine (c : Cursor) : Prop :=
  Text.isLineBlankBefore c.before = true

/-- Whether the characters are spaces. -/
def Text.AreSpaces (l : List Char) : Prop :=
  ∀ x ∈ l, x = ' '

namespace Text

theorem areSpaces_nil : AreSpaces [] := by
  simp [AreSpaces]

theorem AreSpaces.append {l m : List Char} (hl : AreSpaces l) (hm : AreSpaces m) :
    AreSpaces (l ++ m) := by
  intro x hx
  rcases List.mem_append.1 hx with hx | hx
  · exact hl x hx
  · exact hm x hx

theorem areSpaces_indentStep : AreSpaces Value.indentStep := by
  simp [AreSpaces, Value.indentStep]

theorem isLineBlankBefore_space (before : List Char) :
    isLineBlankBefore (' ' :: before) = isLineBlankBefore before := by
  unfold isLineBlankBefore
  rw [List.takeWhile_cons_of_pos (by decide), List.all_cons, show isBlank ' ' = true by decide,
    Bool.true_and]

end Text

namespace Cursor

theorem beginsLine_lineBreak (before rest : List Char) : BeginsLine ⟨'\n' :: before, rest⟩ := rfl

/-- Indentation does not change that a line begins. -/
theorem BeginsLine.pass {c : Cursor} (h : c.BeginsLine) {l : List Char} (hl : Text.AreSpaces l)
    (rest : List Char) : (c.pass l rest).BeginsLine := by
  induction l generalizing c with
  | nil => exact h
  | cons x l ih =>
    obtain rfl := hl x (by simp)
    have hc : BeginsLine ⟨' ' :: c.before, l ++ rest⟩ := (Text.isLineBlankBefore_space _).trans h
    have hpass : c.pass (' ' :: l) rest = Cursor.pass ⟨' ' :: c.before, l ++ rest⟩ l rest := by
      simp [Cursor.pass]
    rw [hpass]
    exact ih hc fun y hy => hl y (List.mem_cons_of_mem _ hy)

end Cursor

namespace Scan

variable {c c' : Cursor} {l rest : List Char}

/-- Indentation is passed. -/
theorem blanks_spaces (hl : Text.AreSpaces l) (hrest : c.rest = l ++ rest) :
    blanks c = blanks (c.pass l rest) := by
  induction l generalizing c with
  | nil =>
    have hc : c.pass [] rest = c := by
      rw [← show c.rest = rest from hrest]
      rfl
    rw [hc]
  | cons x l ih =>
    obtain rfl := hl x (by simp)
    obtain ⟨before, _⟩ := c
    obtain rfl : _ = ' ' :: (l ++ rest) := hrest
    rw [blanks_space, ih (fun y hy => hl y (List.mem_cons_of_mem _ hy)) rfl]
    simp [Cursor.pass]

/-- A line break is passed. -/
theorem blanks_lineBreak {before : List Char} {broken : Bool}
    (h : blanks ⟨'\n' :: before, rest⟩ = .ok broken c') :
    blanks ⟨before, '\n' :: rest⟩ = .ok true c' := by
  have hpass := Blanks.pass_or true .blank false ('\n' :: before) rest
  rw [show Blanks.pass .blank false ('\n' :: before) rest = .ok broken c' from h] at hpass
  rw [blanks, Blanks.pass, if_pos (by decide)]
  exact hpass

/-- The rest of a comment and the line break after it. -/
private theorem pass_lineComment (hl : ∀ x ∈ l, Text.isLineBreak x = false) (broken : Bool)
    (before rest : List Char) : Blanks.pass .lineComment broken before (l ++ '\n' :: rest) =
      Blanks.pass .blank true ('\n' :: (l.reverse ++ before)) rest := by
  induction l generalizing before with
  | nil => rw [List.nil_append, Blanks.pass, if_pos (by decide)]; rfl
  | cons x l ih =>
    rw [List.cons_append, Blanks.pass, if_neg (by simp [hl x (by simp)]),
      ih fun y hy => hl y (List.mem_cons_of_mem _ hy)]
    simp

/-- A line that begins with a number sign is passed. -/
theorem blanks_lineComment (hline : c.BeginsLine) (hl : ∀ x ∈ l, Text.isLineBreak x = false)
    (hrest : c.rest = '#' :: (l ++ '\n' :: rest)) {broken : Bool}
    (h : blanks (c.pass ('#' :: (l ++ ['\n'])) rest) = .ok broken c') :
    blanks c = .ok true c' := by
  have hpass := Blanks.pass_or true .blank false ('\n' :: (l.reverse ++ '#' :: c.before)) rest
  have hblanks : Blanks.pass .blank false ('\n' :: (l.reverse ++ '#' :: c.before)) rest =
      .ok broken c' := by
    simpa [blanks, Cursor.pass] using h
  have hline : Text.isLineBlankBefore c.before = true := hline
  rw [hblanks] at hpass
  rw [blanks, hrest, Blanks.pass, if_neg (by decide), if_pos (by simp [hline]),
    pass_lineComment hl]
  exact hpass

/-- The rest of a comment at the end of the window. -/
private theorem pass_lastComment (hl : ∀ x ∈ l, Text.isLineBreak x = false) (broken : Bool)
    (before : List Char) : Blanks.pass .lineComment broken before l =
      .ok broken ⟨l.reverse ++ before, []⟩ := by
  induction l generalizing before with
  | nil => rfl
  | cons x l ih =>
    rw [Blanks.pass, if_neg (by simp [hl x (by simp)]),
      ih fun y hy => hl y (List.mem_cons_of_mem _ hy)]
    simp

/-- A last line that begins with a number sign is passed. -/
theorem blanks_lastComment (hline : c.BeginsLine) (hl : ∀ x ∈ l, Text.isLineBreak x = false)
    (hrest : c.rest = '#' :: l) : blanks c = .ok false (c.pass ('#' :: l) []) := by
  have hline : Text.isLineBlankBefore c.before = true := hline
  rw [blanks, hrest, Blanks.pass, if_neg (by decide), if_pos (by simp [hline]),
    pass_lastComment hl]
  simp [Cursor.pass]

/-- Blanks stay where a line begins with anything but a comment. -/
theorem blanks_of_line {x : Char} (hl : Text.AreSpaces l) (hrest : c.rest = l ++ x :: rest)
    (hblank : Text.isBlank x = false) (hangle : x ≠ '<') (hsign : x ≠ '#') :
    blanks c = .ok false (c.pass l (x :: rest)) := by
  rw [blanks_spaces hl hrest]
  exact blanks_of_peek? rfl hblank hangle fun h => absurd h hsign

end Scan

/-- What separates an item from the line after it. -/
theorem separatorAt_lineBreak_iff {closing x : Char} {refusal : ColonRefusal} {c c' : Cursor}
    (closes : ClosesListing closing) (hpeek : c.peek? = some x) (hx : x ∉ [',', ';', '=']) :
    (∃ separator, SeparatorAt (some closing) (some refusal) true c separator c') ↔
      (x ≠ '+' ∧ x ≠ ':') ∧ c' = c := by
  have hclosing : closing ≠ '+' ∧ closing ≠ ':' ∧ closing ≠ ',' := by
    rcases closes with rfl | rfl | rfl <;> decide
  constructor
  · rintro ⟨separator, h⟩
    cases h with
    | closing closes' =>
      obtain rfl := Option.some.inj (hpeek.symm.trans closes')
      exact ⟨⟨hclosing.1, hclosing.2.1⟩, rfl⟩
    | unfinished ends => simp [hpeek] at ends
    | colon _ allowed => simp at allowed
    | comma mark =>
      obtain rfl := Option.some.inj (hpeek.symm.trans mark)
      simp at hx
    | lineBreak next _ noMark =>
      obtain rfl := Option.some.inj (hpeek.symm.trans next)
      simp only [List.mem_cons, not_or] at noMark
      exact ⟨⟨noMark.1, noMark.2.1⟩, rfl⟩
  · rintro ⟨⟨hplus, hcolon⟩, rfl⟩
    -- A bracket that closes the listing is no item to be separated.
    by_cases hc : closing = x
    · subst hc
      exact ⟨.closing, .closing hpeek (by simpa using hclosing)⟩
    · refine ⟨.comma, .lineBreak hpeek (by simpa using hc) ?_ rfl⟩
      simp only [List.mem_cons, List.not_mem_nil, or_false, not_or] at hx ⊢
      exact ⟨hplus, hcolon, hx⟩

/-- Behind a line break a separator leads to whatever has no meaning between items. -/
theorem separator_lineBreak_iff {closing x : Char} {c c₁ : Cursor} (refusal : ColonRefusal)
    (closes : ClosesListing closing) (hbreak : Scan.blanks c = .ok true c₁)
    (hpeek : c₁.peek? = some x) (hx : x ∉ [',', ';', '=']) (hsign : x ≠ '+' ∧ x ≠ ':')
    (c' : Cursor) :
    (∃ separator, Scan.separator (some closing) (some refusal) c = .ok separator c') ↔ c' = c₁ := by
  simp only [separator_iff_of_blanks hbreak]
  rw [separatorAt_lineBreak_iff closes hpeek hx, and_iff_right hsign]

namespace Value

mutual

/-- A value on a single line holds no line break. -/
theorem not_isLineBreak_of_mem_inline : ∀ v : Value, v.IsEvaluated → ∀ l, v.inline? = some l →
    ∀ x ∈ l, Text.isLineBreak x = false
  | .string s, _, l, hl, x, hx => by
    obtain rfl := Option.some.inj ((inline?_string s).symm.trans hl)
    exact Text.not_isLineBreak_of_mem_quote hx
  | .integer n, _, l, hl, x, hx => by
    obtain rfl := Option.some.inj ((inline?_integer n).symm.trans hl)
    exact Token.not_isLineBreak_of_continues (Token.continues_of_mem_ofInt hx)
  | .decimal d, _, l, hl, x, hx =>
    Token.not_isLineBreak_of_continues (Token.continues_of_mem_literal (d := d) hl hx)
  | .boolean b, _, l, hl, x, hx => by
    obtain rfl := Option.some.inj ((inline?_boolean b).symm.trans hl)
    exact Token.not_isLineBreak_of_continues (continues_of_mem_boolean hx)
  | .sequence items, h, l, hl, x, hx => by
    cases h with
    | sequence inner =>
      obtain ⟨m, hm, rfl⟩ := inline?_sequence_eq_some.1 hl
      simp only [List.mem_cons, List.mem_append, List.not_mem_nil, or_false] at hx
      rcases hx with rfl | hx | rfl
      · decide
      · exact not_isLineBreak_of_mem_inlineItems items inner m hm x hx
      · decide
  | .hash entries, h, l, hl, x, hx => by
    cases h with
    | hash _ inner =>
      obtain ⟨m, hm, rfl⟩ := inline?_hash_eq_some.1 hl
      simp only [List.mem_cons, List.mem_append, List.not_mem_nil, or_false] at hx
      rcases hx with rfl | hx | rfl
      · decide
      · exact not_isLineBreak_of_mem_inlineEntries entries inner m hm x hx
      · decide
  | .call name params, h, l, hl, x, hx => by
    cases h with
    | call isName inner =>
      obtain ⟨m, hm, rfl⟩ := inline?_call_eq_some.1 hl
      obtain ⟨y, n, hname, hy, hn⟩ := isName
      simp only [hname, List.mem_cons, List.mem_append, List.not_mem_nil, or_false] at hx
      rcases hx with (rfl | hx) | rfl | hx | rfl
      · exact Text.not_isLineBreak_of_isBlank (mayBegin_of_starts hy).1
      · exact Token.not_isLineBreak_of_continues (hn x hx)
      · decide
      · exact not_isLineBreak_of_mem_inlineItems params inner m hm x hx
      · decide
  | .fragment f, h, _, _, _, _ => by cases h

theorem not_isLineBreak_of_mem_inlineItems : ∀ vs : List Value, (∀ v ∈ vs, v.IsEvaluated) →
    ∀ l, inlineItems? vs = some l → ∀ x ∈ l, Text.isLineBreak x = false
  | [], _, l, hl, x, hx => by
    obtain rfl := Option.some.inj hl
    cases hx
  | [v], h, l, hl, x, hx => not_isLineBreak_of_mem_inline v (h v (by simp)) l hl x hx
  | v :: w :: vs, h, l, hl, x, hx => by
    obtain ⟨m, hm, n, hn, rfl⟩ := inlineItems?_cons_cons_eq_some.1 hl
    simp only [List.mem_append, List.mem_cons] at hx
    rcases hx with hx | rfl | rfl | hx
    · exact not_isLineBreak_of_mem_inline v (h v (by simp)) m hm x hx
    · decide
    · decide
    · exact not_isLineBreak_of_mem_inlineItems (w :: vs)
        (fun u hu => h u (List.mem_cons_of_mem v hu)) n hn x hx

theorem not_isLineBreak_of_mem_inlineEntries : ∀ es : Hash, (∀ e ∈ es, e.2.IsEvaluated) →
    ∀ l, inlineEntries? es = some l → ∀ x ∈ l, Text.isLineBreak x = false
  | [], _, l, hl, x, hx => by
    obtain rfl := Option.some.inj hl
    cases hx
  | [(k, v)], h, l, hl, x, hx => by
    obtain ⟨m, hm, rfl⟩ := inlineEntries?_singleton_eq_some.1 hl
    simp only [List.mem_append, List.mem_cons] at hx
    rcases hx with hx | rfl | hx
    · exact Text.not_isLineBreak_of_mem_quote hx
    · decide
    · exact not_isLineBreak_of_mem_inline v (h (k, v) (by simp)) m hm x hx
  | (k, v) :: e :: es, h, l, hl, x, hx => by
    obtain ⟨m, hm, n, hn, rfl⟩ := inlineEntries?_cons_cons_eq_some.1 hl
    simp only [List.mem_append, List.mem_cons] at hx
    rcases hx with hx | rfl | hx | rfl | rfl | hx
    · exact Text.not_isLineBreak_of_mem_quote hx
    · decide
    · exact not_isLineBreak_of_mem_inline v (h (k, v) (by simp)) m hm x hx
    · decide
    · decide
    · exact not_isLineBreak_of_mem_inlineEntries (e :: es)
        (fun e' he' => h e' (List.mem_cons_of_mem _ he')) n hn x hx

end

end Value
end TextualData
