import TextualData.Proofs.Progress

/-!
# Blanks and comments

Where blanks lead depends on what follows a place, not on whether a line break came before; and
where they lead, there are no more of them.
-/

namespace TextualData

namespace Blanks

theorem opensComment_iff {l : List Char} :
    opensComment l ↔ ∃ m, l = '<' :: '#' :: '-' :: '-' :: m := by
  unfold opensComment
  split
  · next m => simp
  · next hno => simpa using fun m hm => hno m hm

/-- A line break before the blanks does not change where they lead. -/
theorem pass_or (broken₀ : Bool) (mode : Mode) (broken : Bool) (before rest : List Char) :
    pass mode (broken₀ || broken) before rest =
      match pass mode broken before rest with
      | .ok broken' c => .ok (broken₀ || broken') c
      | .error fault c => .error fault c := by
  -- Every step passes the flag on, and only a line break changes it.
  fun_induction pass mode broken before rest
  case case1 | case6 | case9 => rfl
  case case2 hblank ih =>
    rw [pass, if_pos hblank, Bool.or_assoc]
    exact ih
  case case3 hblank hcomment ih =>
    rw [pass, if_neg hblank, if_pos hcomment]
    exact ih
  case case4 hblank hcomment hopens ih =>
    rw [pass, if_neg hblank, if_neg hcomment, if_pos hopens]
    exact ih
  case case5 hblank hcomment hopens =>
    rw [pass, if_neg hblank, if_neg hcomment, if_neg hopens]
  case case7 hbreak ih =>
    rw [pass, if_pos hbreak]
    simpa using ih
  case case8 hbreak ih =>
    rw [pass, if_neg hbreak]
    exact ih
  case case10 ih =>
    rw [pass]
    exact ih
  case case11 hno ih =>
    rw [pass]
    · exact ih
    · exact hno

/-- Where blanks lead there are no more blanks. -/
theorem blanks_of_pass (mode : Mode) (broken : Bool) (before rest : List Char) {b : Bool}
    {c : Cursor} (h : pass mode broken before rest = .ok b c) :
    Scan.blanks c = .ok false c := by
  fun_induction pass mode broken before rest
  case case1 | case6 =>
    simp only [EStateM.Result.ok.injEq] at h
    rw [← h.2]
    rfl
  -- Here the scan stops at a character, which it would stop at again.
  case case5 hblank hcomment hopens =>
    simp only [EStateM.Result.ok.injEq] at h
    rw [← h.2, Scan.blanks, pass, if_neg hblank, if_neg hcomment, if_neg hopens]
  case case2 ih | case3 ih | case4 ih | case7 ih | case8 ih | case10 ih | case11 ih => exact ih h
  case case9 => simp at h

end Blanks

namespace Scan

variable {c c' : Cursor} {broken : Bool} {x : Char}

theorem blanks_again (h : blanks c = .ok broken c') : blanks c' = .ok false c' :=
  Blanks.blanks_of_pass _ _ _ _ h

theorem blanks_unique {broken' : Bool} {c'' : Cursor} (h : blanks c = .ok broken c')
    (h' : blanks c = .ok broken' c'') : c' = c'' :=
  (EStateM.Result.ok.inj (h.symm.trans h')).2

/-- Blanks lead past a separator to the next item. -/
theorem blanks_of_separator {closing : Option Char} {refusal : Option ColonRefusal}
    {sep : Separator} (h : separator closing refusal c = .ok sep c') :
    blanks c' = .ok false c' := by
  obtain ⟨broken, c₁, hb, hs⟩ := separator_eq_ok.1 h
  cases hs with
  | closing | unfinished | lineBreak => exact blanks_again hb
  | colon _ _ hb' | comma _ hb' => exact blanks_again hb'

/-- Nothing is passed at a character that is neither blank nor opens a comment. -/
theorem blanks_of_peek? (hpeek : c.peek? = some x) (hblank : Text.isBlank x = false)
    (hangle : x ≠ '<') (hsign : x = '#' → Text.isLineBlankBefore c.before = false) :
    blanks c = .ok false c := by
  obtain ⟨rest, hrest⟩ := Cursor.rest_of_peek? hpeek
  have hcomment : ¬(x == '#' && Text.isLineBlankBefore c.before) = true := by
    rintro h
    simp only [Bool.and_eq_true, beq_iff_eq] at h
    simp [hsign h.1] at h
  have hopens : ¬Blanks.opensComment (x :: rest) = true := by
    unfold Blanks.opensComment
    split
    · next heq =>
      simp only [List.cons.injEq] at heq
      exact absurd heq.1 hangle
    · simp
  rw [blanks, hrest, Blanks.pass, if_neg (by simp [hblank]), if_neg hcomment, if_neg hopens,
    ← hrest]

/-- Nothing is passed at a delimiter, an angle bracket apart. -/
theorem blanks_of_delimiter (hpeek : c.peek? = some x) (hx : x ∈ Token.delimiters)
    (hangle : x ≠ '<') : blanks c = .ok false c := by
  have hall : Token.delimiters.all (fun y => !Text.isBlank y && y != '#') := by decide
  have hdelimiter := List.all_eq_true.1 hall x hx
  simp only [Bool.and_eq_true, Bool.not_eq_true', bne_iff_ne] at hdelimiter
  exact blanks_of_peek? hpeek hdelimiter.1 hangle fun h => absurd h hdelimiter.2

/-- A space is passed. -/
theorem blanks_space (before rest : List Char) :
    blanks ⟨before, ' ' :: rest⟩ = blanks ⟨' ' :: before, rest⟩ := by
  rw [blanks, Blanks.pass, if_pos (by decide)]
  rfl

theorem blanks_of_rest_eq_nil (h : c.rest = []) : blanks c = .ok false c := by
  obtain ⟨before, rest⟩ := c
  obtain rfl : rest = [] := h
  rfl

end Scan
end TextualData
