import TextualData.Proofs.Blanks
import TextualData.Proofs.Tokens

/-!
# Gaps

A gap is a run of blanks and comments. Whether a number sign opens a comment in it depends on what
stands before it in its line, and on nothing else outside of the gap. Blanks lead over a gap
whatever follows it (`Blanks.pass_gap`), and what they have led over is a gap, unless they came to
the end of the window (`Scan.gap_of_blanks`).
-/

namespace TextualData

namespace Text

@[simp] theorem isLineBlankBefore_nil : isLineBlankBefore [] = true := rfl

theorem isLineBlankBefore_cons (x : Char) (before : List Char) :
    isLineBlankBefore (x :: before) =
      (isLineBreak x || isBlank x && isLineBlankBefore before) := by
  cases hx : isLineBreak x <;> simp [isLineBlankBefore, hx]

/-- Behind a blank, a line is blank if it was before, or if the blank ends the line before. -/
theorem isLineBlankBefore_of_isBlank {x : Char} (hx : isBlank x) (before : List Char) :
    isLineBlankBefore (x :: before) = (isLineBreak x || isLineBlankBefore before) := by
  rw [isLineBlankBefore_cons, hx, Bool.true_and]

/-- A line is not blank behind anything but a blank. -/
theorem isLineBlankBefore_of_not_isBlank {x : Char} (hx : isBlank x = false)
    (before : List Char) : isLineBlankBefore (x :: before) = false := by
  rw [isLineBlankBefore_cons, hx, not_isLineBreak_of_isBlank hx]
  rfl

/-- The same characters make the same of two lines. -/
theorem isLineBlankBefore_append {before before' : List Char}
    (h : isLineBlankBefore before = isLineBlankBefore before') (l : List Char) :
    isLineBlankBefore (l ++ before) = isLineBlankBefore (l ++ before') := by
  induction l with
  | nil => exact h
  | cons x l ih => simp only [List.cons_append, isLineBlankBefore_cons, ih]

end Text

namespace Blanks

/-- The mark that closes a comment. -/
def closingMark : List Char := ['-', '-', '>']

/-- A comment with a closing mark. After the first character, the mark stands at the end of the
comment and nowhere before. -/
def IsBlockComment (l : List Char) : Prop :=
  opensComment l ∧ ∃ m, l = '<' :: (m ++ closingMark) ∧ ¬closingMark <:+: m ++ ['-', '-']

/-- Blanks and comments behind a line that is blank up to there, or is not; and whether there is a
line break among them, those inside of comments with a closing mark apart. -/
inductive Gap : (fresh : Bool) → List Char → (broken : Bool) → Prop where
  | nil {fresh : Bool} : Gap fresh [] false
  | blank {fresh broken : Bool} {x : Char} {l : List Char} (isBlank : Text.isBlank x)
      (more : Gap (Text.isLineBreak x || fresh) l broken) :
      Gap fresh (x :: l) (Text.isLineBreak x || broken)
  | blockComment {fresh broken : Bool} {m l : List Char} (comment : IsBlockComment m)
      (more : Gap false l broken) : Gap fresh (m ++ l) broken
  /-- A comment that takes the rest of its line. -/
  | lineComment {broken : Bool} {x : Char} {m l : List Char}
      (inLine : ∀ y ∈ m, Text.isLineBreak y = false) (ends : Text.isLineBreak x)
      (more : Gap true l broken) : Gap true ('#' :: (m ++ x :: l)) true

/-- The rest of a comment that takes its line. -/
theorem pass_lineComment {m : List Char} (inLine : ∀ y ∈ m, Text.isLineBreak y = false) {x : Char}
    (ends : Text.isLineBreak x) (broken : Bool) (before rest : List Char) :
    pass .lineComment broken before (m ++ x :: rest) =
      pass .blank true (x :: (m.reverse ++ before)) rest := by
  induction m generalizing before with
  | nil => rw [List.nil_append, pass, if_pos ends]; rfl
  | cons y m ih =>
    rw [List.cons_append, pass, if_neg (by simp [inLine y (by simp)]),
      ih fun z hz => inLine z (List.mem_cons_of_mem _ hz)]
    simp

/-- Whether a mark begins at a character does not depend on what follows the comment. -/
private theorem closingMark_isPrefix_iff {x : Char} {m rest : List Char} :
    closingMark <+: x :: (m ++ ['-', '-']) ↔
      ∃ l, x = '-' ∧ m ++ (closingMark ++ rest) = '-' :: '>' :: l := by
  constructor
  · rintro ⟨k, hk⟩
    match m with
    | [] => simp [closingMark] at hk
    | [_] => simp [closingMark] at hk
    | y :: z :: m =>
      simp only [closingMark, List.cons_append, List.cons.injEq] at hk
      obtain ⟨rfl, rfl, rfl, _⟩ := hk
      exact ⟨_, rfl, rfl⟩
  · rintro ⟨l, rfl, h⟩
    match m with
    | [] => simp [closingMark] at h
    | [_] => simp [closingMark] at h
    | y :: z :: m =>
      simp only [List.cons_append, List.cons.injEq] at h
      obtain ⟨rfl, rfl, _⟩ := h
      exact ⟨m ++ ['-', '-'], rfl⟩

/-- The rest of a comment with a closing mark. -/
theorem pass_blockComment {m : List Char} (first : ¬closingMark <:+: m ++ ['-', '-'])
    (start : Cursor) (broken : Bool) (before rest : List Char) :
    pass (.blockComment start) broken before (m ++ (closingMark ++ rest)) =
      pass .blank broken ((m ++ closingMark).reverse ++ before) rest := by
  induction m generalizing before with
  | nil =>
    show pass _ _ _ ('-' :: '-' :: '>' :: rest) = _
    rw [pass]
    rfl
  | cons x m ih =>
    rw [List.cons_append, pass]
    · rw [ih fun h => first (h.trans (List.suffix_cons x _).isInfix)]
      simp
    · intro l hx hl
      exact first (closingMark_isPrefix_iff.2 ⟨l, hx, hl⟩).isInfix

/-- Blanks lead over a gap, whatever follows it. -/
theorem pass_gap {before l : List Char} {broken : Bool}
    (h : Gap (Text.isLineBlankBefore before) l broken) (broken₀ : Bool) (rest : List Char) :
    pass .blank broken₀ before (l ++ rest) =
      pass .blank (broken₀ || broken) (l.reverse ++ before) rest := by
  -- The line up to the place is fresh or not, and that is all that the gap knows of it.
  generalize hfresh : Text.isLineBlankBefore before = fresh at h
  induction h generalizing before broken₀ with
  | nil => simp
  | @blank fresh broken x l isBlank _ ih =>
    rw [List.cons_append, pass, if_pos isBlank,
      ih _ (by rw [Text.isLineBlankBefore_of_isBlank isBlank, hfresh])]
    simp [Bool.or_assoc]
  | @blockComment fresh broken m l comment _ ih =>
    obtain ⟨opens, m, rfl, first⟩ := comment
    have hopens : opensComment ('<' :: (m ++ closingMark ++ l ++ rest)) := by
      obtain ⟨m', hm⟩ := opensComment_iff.1 opens
      rw [← List.cons_append, ← List.cons_append, hm]
      exact opensComment_iff.2 ⟨m' ++ l ++ rest, by simp⟩
    have hrest : m ++ closingMark ++ l ++ rest = m ++ (closingMark ++ (l ++ rest)) := by simp
    rw [List.cons_append, List.cons_append, pass, if_neg (by decide), if_neg (by simp),
      if_pos hopens, hrest, pass_blockComment first, ih]
    · simp
    · rw [List.reverse_append]
      exact Text.isLineBlankBefore_of_not_isBlank (by decide) _
  | @lineComment broken x m l inLine ends _ ih =>
    rw [List.cons_append, pass, if_neg (by decide), if_pos (by simp [hfresh]), List.append_assoc,
      List.cons_append, pass_lineComment inLine ends,
      ih _ (by rw [Text.isLineBlankBefore_cons, ends, Bool.true_or])]
    simp

/-- The mark that closes a comment comes after all of the mark that opens it. -/
private theorem opensComment_of_closingMark {m rest : List Char}
    (h : opensComment ('<' :: (m ++ (closingMark ++ rest)))) :
    opensComment ('<' :: (m ++ closingMark)) := by
  obtain ⟨k, hk⟩ := opensComment_iff.1 h
  rcases m with _ | ⟨y, _ | ⟨z, _ | ⟨w, m⟩⟩⟩
  · simp [closingMark] at hk
  · obtain ⟨rfl, _⟩ := List.cons.inj (List.cons.inj hk).2
    rfl
  · simp only [List.cons_append, List.cons.injEq] at hk
    obtain ⟨-, rfl, rfl, _⟩ := hk
    rfl
  · simp only [List.cons_append, List.cons.injEq] at hk
    obtain ⟨-, rfl, rfl, rfl, _⟩ := hk
    rfl

/-- What blanks have led over in a mode. -/
private def Led (fresh : Bool) : Mode → (l : List Char) → (broken : Bool) → Prop
  | .blank, l, broken => Gap fresh l broken
  | .lineComment, l, broken => broken = true ∧ ∃ m x l' broken',
      l = m ++ x :: l' ∧ (∀ y ∈ m, Text.isLineBreak y = false) ∧ Text.isLineBreak x ∧
        Gap true l' broken'
  | .blockComment _, l, broken => ∃ m l', l = m ++ (closingMark ++ l') ∧
      ¬closingMark <:+: m ++ ['-', '-'] ∧ Gap false l' broken

/-- Unless they come to the end of the window, blanks lead over a gap. -/
private theorem led_of_pass (mode : Mode) (broken₀ : Bool) (before rest : List Char) {b : Bool}
    {c : Cursor} (h : pass mode broken₀ before rest = .ok b c) (hc : c.rest ≠ []) :
    ∃ l broken, rest = l ++ c.rest ∧ c.before = l.reverse ++ before ∧ b = (broken₀ || broken) ∧
      Led (Text.isLineBlankBefore before) mode l broken := by
  fun_induction pass mode broken₀ before rest
  case case1 | case6 =>
    simp only [EStateM.Result.ok.injEq] at h
    simp [← h.2] at hc
  case case9 => simp at h
  case case5 broken₀ before x rest _ _ _ =>
    simp only [EStateM.Result.ok.injEq] at h
    obtain ⟨rfl, rfl⟩ := h
    exact ⟨[], false, rfl, rfl, by simp, .nil⟩
  case case2 broken₀ before x rest hblank ih =>
    obtain ⟨l, broken, hl, hb, hbroken, hgap⟩ := ih h
    refine ⟨x :: l, Text.isLineBreak x || broken, by rw [hl]; rfl, by simp [hb],
      by simp [hbroken, Bool.or_assoc], .blank hblank ?_⟩
    rwa [Text.isLineBlankBefore_of_isBlank hblank] at hgap
  case case3 broken₀ before x rest hblank hcomment ih =>
    obtain ⟨l, broken, hl, hb, hbroken, rfl, m, y, l', broken', rfl, inLine, ends, hgap⟩ := ih h
    simp only [Bool.and_eq_true, beq_iff_eq] at hcomment
    obtain ⟨rfl, hfresh⟩ := hcomment
    refine ⟨'#' :: (m ++ y :: l'), true, by rw [hl]; rfl, by simp [hb], hbroken, ?_⟩
    rw [hfresh]
    exact .lineComment inLine ends hgap
  case case4 broken₀ before x rest hblank hcomment hopens ih =>
    obtain ⟨l, broken, hl, hb, hbroken, m, l', rfl, first, hgap⟩ := ih h
    obtain ⟨rest', hopening⟩ := opensComment_iff.1 hopens
    obtain ⟨rfl, -⟩ := List.cons.inj hopening
    have hwhole : opensComment ('<' :: (m ++ closingMark)) := by
      rw [hl, List.append_assoc, List.append_assoc] at hopens
      exact opensComment_of_closingMark hopens
    exact ⟨'<' :: (m ++ closingMark) ++ l', broken, by rw [hl]; simp, by simp [hb], hbroken,
      .blockComment ⟨hwhole, m, rfl, first⟩ hgap⟩
  case case7 broken₀ before x rest hbreak ih =>
    obtain ⟨l, broken, hl, hb, hbroken, hgap⟩ := ih h
    refine ⟨x :: l, true, by rw [hl]; rfl, by simp [hb], by simp [hbroken], rfl, [], x, l, broken,
      rfl, by simp, hbreak, ?_⟩
    rwa [Text.isLineBlankBefore_cons, hbreak, Bool.true_or] at hgap
  case case8 broken₀ before x rest hbreak ih =>
    obtain ⟨l, broken, hl, hb, hbroken, rfl, m, y, l', broken', rfl, inLine, ends, hgap⟩ := ih h
    refine ⟨x :: (m ++ y :: l'), true, by rw [hl]; rfl, by simp [hb], hbroken, rfl, x :: m, y, l',
      broken', rfl, ?_, ends, hgap⟩
    simpa [hbreak] using inLine
  case case10 broken₀ before rest ih =>
    obtain ⟨l, broken, hl, hb, hbroken, hgap⟩ := ih h
    refine ⟨closingMark ++ l, broken, by rw [hl]; rfl, by simp [hb, closingMark], hbroken, [], l,
      rfl, by decide, ?_⟩
    rwa [Text.isLineBlankBefore_of_not_isBlank (by decide)] at hgap
  case case11 start broken₀ before x rest hno ih =>
    obtain ⟨l, broken, hl, hb, hbroken, m, l', rfl, first, hgap⟩ := ih h
    refine ⟨x :: (m ++ (closingMark ++ l')), broken, by rw [hl]; rfl, by simp [hb], hbroken,
      x :: m, l', rfl, ?_, hgap⟩
    rw [List.cons_append, List.infix_cons_iff, not_or]
    refine ⟨?_, first⟩
    -- A mark here would have closed the comment.
    intro hmark
    obtain ⟨k, hx, hk⟩ : ∃ k, x = '-' ∧ m ++ (closingMark ++ (l' ++ c.rest)) = '-' :: '>' :: k :=
      closingMark_isPrefix_iff.1 hmark
    exact hno k hx (by rw [hl, ← hk]; simp)

end Blanks

namespace Scan

variable {c c' : Cursor} {broken : Bool}

/-- Blanks lead to a character that is neither blank nor opens a comment in its line. -/
theorem stops_of_blanks (h : blanks c = .ok broken c') {x : Char} (hpeek : c'.peek? = some x) :
    Text.isBlank x = false ∧ (x = '#' → Text.isLineBlankBefore c'.before = false) := by
  have hagain := blanks_again h
  obtain ⟨rest, hrest⟩ := Cursor.rest_of_peek? hpeek
  -- A character that is passed is not reached again.
  have hno : ∀ mode b, Blanks.pass mode b (x :: c'.before) rest ≠ .ok false c' := by
    intro mode b hpass
    have hlen := (Blanks.leads_of_pass _ _ _ _ hpass).length_le
    simp only [hrest, List.length_cons] at hlen
    omega
  rw [blanks, hrest, Blanks.pass] at hagain
  constructor
  · rw [← Bool.not_eq_true]
    intro hblank
    rw [if_pos hblank] at hagain
    exact hno _ _ hagain
  · rintro rfl
    rw [← Bool.not_eq_true]
    intro hline
    rw [if_neg (by decide), if_pos (by simp [hline])] at hagain
    exact hno _ _ hagain

/-- What blanks have led over before the end of the window is a gap. -/
theorem gap_of_blanks (h : blanks c = .ok broken c') (hc : c'.rest ≠ []) :
    ∃ l, c.rest = l ++ c'.rest ∧ c'.before = l.reverse ++ c.before ∧
      Blanks.Gap (Text.isLineBlankBefore c.before) l broken := by
  obtain ⟨l, broken', hl, hb, hbroken, hgap⟩ := Blanks.led_of_pass _ _ _ _ h hc
  rw [Bool.false_or] at hbroken
  exact ⟨l, hl, hb, hbroken ▸ hgap⟩

/-- Blanks at a gap do what they do behind it; a line break in the gap counts. -/
theorem blanks_eq_of_gap {l rest : List Char} (hrest : c.rest = l ++ rest)
    (hgap : Blanks.Gap (Text.isLineBlankBefore c.before) l broken) :
    blanks c = match blanks (c.pass l rest) with
      | .ok broken' c' => .ok (broken || broken') c'
      | .error fault c' => .error fault c' := by
  have hpass := Blanks.pass_or broken .blank false (l.reverse ++ c.before) rest
  rw [Bool.or_false] at hpass
  rw [blanks, hrest, Blanks.pass_gap hgap, Bool.false_or, hpass]
  rfl

/-- Blanks go on behind a gap, and a line break in it counts. -/
theorem blanks_gap {l rest : List Char} {broken' : Bool} (hrest : c.rest = l ++ rest)
    (hgap : Blanks.Gap (Text.isLineBlankBefore c.before) l broken)
    (h : blanks (c.pass l rest) = .ok broken' c') : blanks c = .ok (broken || broken') c' := by
  rw [blanks_eq_of_gap hrest hgap, h]

end Scan
end TextualData
