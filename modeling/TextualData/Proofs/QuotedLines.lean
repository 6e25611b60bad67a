import TextualData.Proofs.LocationBytes

/-!
# Quoted lines

A location inside of a text quotes the line of its place, unless the line is empty. The line is
quoted with its tabs expanded (`Text.Expands`), and shortened at both ends if it is too long, with a
caret under the place (`Location.Quotation`).
-/

namespace TextualData

namespace Text

/-- Text that begins at a column, and the same text with each tab replaced by as many spaces as lead
to the next column that is a multiple of the width. -/
inductive Expands (width : Nat) : (column : Nat) → List Char → List Char → Prop where
  | nil {column : Nat} : Expands width column [] []
  | tab {column spaces : Nat} {l m : List Char} (least : 0 < spaces) (most : spaces ≤ width)
      (stop : width ∣ column + spaces) (more : Expands width (column + spaces) l m) :
      Expands width column ('\t' :: l) (List.replicate spaces ' ' ++ m)
  | other {column : Nat} {c : Char} {l m : List Char} (noTab : c ≠ '\t')
      (more : Expands width (column + 1) l m) : Expands width column (c :: l) (c :: m)

/-- The line of the place between two parts of a text, before and from the place. -/
def lineAround (before after : List Char) : List Char × List Char :=
  ((outsidePair before after).1.rtakeWhile fun c => !isLineBreak c,
    (outsidePair before after).2.takeWhile fun c => !isLineBreak c)

variable {before after l m : List Char} {width column : Nat}

theorem expands_expandTabs (h : 0 < width) (column : Nat) (l : List Char) :
    Expands width column l (expandTabs width column l) := by
  induction l generalizing column with
  | nil => exact .nil
  | cons c l ih =>
    by_cases hc : c = '\t'
    · subst hc
      have hmod : column % width < width := Nat.mod_lt column h
      have hstop : column + (width - column % width) = width * (column / width + 1) := by
        have hdiv := Nat.div_add_mod column width
        rw [Nat.mul_add, Nat.mul_one]
        omega
      rw [expandTabs, if_pos rfl]
      exact .tab (Nat.sub_pos_of_lt hmod) (Nat.sub_le _ _) ⟨_, hstop⟩ (ih _)
    · rw [expandTabs, if_neg hc]
      exact .other hc (ih _)

theorem expandTabs_append (width column : Nat) (l m : List Char) :
    expandTabs width column (l ++ m) =
      expandTabs width column l ++
        expandTabs width (column + (expandTabs width column l).length) m := by
  induction l generalizing column with
  | nil => rfl
  | cons c l ih =>
    by_cases hc : c = '\t'
    · simp [expandTabs, hc, ih, Nat.add_assoc]
    · simp [expandTabs, hc, ih, Nat.add_assoc, Nat.add_comm 1]

theorem expandTabs_ne_nil (h : 0 < width) (hl : l ≠ []) : expandTabs width column l ≠ [] := by
  obtain ⟨c, l, rfl⟩ := List.exists_cons_of_ne_nil hl
  have hspaces : width - column % width ≠ 0 := (Nat.sub_pos_of_lt (Nat.mod_lt column h)).ne'
  by_cases hc : c = '\t'
  · simp [expandTabs, hc, hspaces]
  · simp [expandTabs, hc]

/-- Since the last line break there are the characters of the line. -/
theorem drop_lineBreaksBefore
    (noPair : ¬(before.getLast? = some '\r' ∧ after.head? = some '\n')) :
    before.drop ((lineBreaksBefore (before ++ after) (before.length + 1)).sup id) =
      before.rtakeWhile fun c => !isLineBreak c := by
  induction before using List.reverseRecOn generalizing after with
  | nil => rfl
  | append_singleton before c ih =>
    by_cases hc : isLineBreak c
    · have hends : EndsLineBreak (before ++ [c]) after := by
        rw [endsLineBreak_iff, List.getLast?_concat]
        rw [List.getLast?_concat] at noPair
        simp only [isLineBreak, Bool.or_eq_true, beq_iff_eq] at hc
        refine hc.imp (congrArg some) fun h => ⟨congrArg some h, fun hnext => ?_⟩
        exact noPair ⟨congrArg some h, hnext⟩
      rw [(lineBreaksBefore_of_ends hends).2, List.rtakeWhile_concat_neg _ _ _ (by simp [hc])]
      simp
    · have hnot : c ≠ '\n' ∧ c ≠ '\r' := by simpa [isLineBreak] using hc
      have hends : ¬EndsLineBreak (before ++ [c]) after := by simp [endsLineBreak_iff, hnot]
      have hle := sup_lineBreaksBefore_le (before ++ c :: after) (before.length + 1)
      have hmore := @ih (c :: after) (by simp [hnot])
      rw [lineBreaksBefore_of_not_ends hends, List.append_assoc, List.length_append,
        List.singleton_append, List.length_singleton, List.drop_append_of_le_length hle, hmore,
        List.rtakeWhile_concat_pos _ _ _ (by simp [hc])]

/-- A place that is not between the halves of a line break. -/
theorem outsidePair_noPair (before after : List Char) :
    ¬((outsidePair before after).1.getLast? = some '\r' ∧
      (outsidePair before after).2.head? = some '\n') := by
  rcases outsidePair_cases before after with ⟨houtside, noPair⟩ | ⟨front, back, rfl, rfl, houtside⟩
  · rwa [houtside]
  · simp [houtside]

end Text

namespace Location

variable {before after left right : List Char}

/-- Inside of a text, the row of a place holds the line of the place. -/
theorem rowAt_line (before after : List Char) (c : Char) :
    (rowAt before (c :: after)).before = (Text.lineAround before (c :: after)).1 ∧
      (rowAt before (c :: after)).after = (Text.lineAround before (c :: after)).2 := by
  have hdrop := Text.drop_lineBreaksBefore (Text.outsidePair_noPair before (c :: after))
  rw [Text.outsidePair_append] at hdrop
  rw [rowAt_cons, Text.lineAround, Text.lineBreaksUpTo, hdrop]
  exact ⟨rfl, rfl⟩

/-- What stands for a part of a line that is cut off. -/
def mark (cut : List Char) : List Char :=
  if cut = [] then [] else ellipsis

@[simp] theorem length_ellipsis : ellipsis.length = 3 := rfl

/-- The part from the place is shortened to so many columns, the marks included. -/
theorem exists_cutRight {kept : Nat} (h : 6 ≤ kept) (right : List Char) : ∃ shown cut,
    right = shown ++ cut ∧
      (if kept < right.length then right.take (kept - 3) ++ ellipsis else right) =
        shown ++ mark cut ∧
      (shown ++ mark cut).length = min kept right.length ∧ (right ≠ [] → shown ≠ []) := by
  split
  · next hlong =>
    have hcut : right.drop (kept - 3) ≠ [] := by simp; omega
    refine ⟨right.take (kept - 3), right.drop (kept - 3), (List.take_append_drop _ _).symm, ?_, ?_,
      ?_⟩
    · rw [mark, if_neg hcut]
    · rw [mark, if_neg hcut, List.length_append, List.length_take, length_ellipsis]
      omega
    · intro hne
      simp [hne]
      omega
  · next hfits => exact ⟨right, [], by simp [mark]; omega⟩

/-- The part before the place is shortened as far as needed, the marks included, if the other part
leaves place for the marks. -/
theorem exists_cutLeft {width : Nat} (hwidth : width ≤ 53) {left : List Char}
    (hlong : 56 < left.length + width) : ∃ cut shown,
    left = cut ++ shown ∧
      ellipsis ++ left.drop (left.length + width - 56 + 3) = mark cut ++ shown ∧
      (mark cut ++ shown).length + width = 56 := by
  have hcut : left.take (left.length + width - 56 + 3) ≠ [] := by
    rw [Ne, List.take_eq_nil_iff]
    rintro (h | rfl)
    · omega
    · simp at hlong
      omega
  refine ⟨left.take (left.length + width - 56 + 3), left.drop (left.length + width - 56 + 3),
    (List.take_append_drop _ _).symm, ?_, ?_⟩
  · rw [mark, if_neg hcut]
  · rw [mark, if_neg hcut, List.length_append, List.length_drop, length_ellipsis]
    omega

/-- Both parts of a line are shortened at their outer ends, to at most 56 columns together, and not
at all if the line is not longer. -/
theorem exists_clip (left right : List Char) : ∃ cutLeft shownLeft shownRight cutRight,
    left = cutLeft ++ shownLeft ∧ right = shownRight ++ cutRight ∧
      clip left right = (mark cutLeft ++ shownLeft, shownRight ++ mark cutRight) ∧
      (mark cutLeft ++ shownLeft).length + (shownRight ++ mark cutRight).length ≤ 56 ∧
      (left.length + right.length ≤ 56 → cutLeft = [] ∧ cutRight = []) ∧
      (right ≠ [] → shownRight ≠ []) := by
  unfold clip quotedWidth
  split
  · next hfits => exact ⟨[], left, right, [], by simpa [mark] using hfits⟩
  · next hlong =>
    obtain ⟨shownRight, cutRight, hright, hshown, hlength, hne⟩ := exists_cutRight
      (Nat.le_max_left 6 (right.length - (left.length + right.length - 56))) right
    simp only [hshown]
    split
    · next hfits =>
      exact ⟨[], left, shownRight, cutRight, rfl, hright, rfl, hfits, fun h => absurd h hlong, hne⟩
    · next hleft =>
      -- With more than 53 columns at the right, what is left of the place would fit uncut.
      rw [Nat.not_le] at hleft
      have hwidth : (shownRight ++ mark cutRight).length ≤ 53 := by omega
      obtain ⟨cutLeft, shownLeft, hcut, hdrop, hfits⟩ := exists_cutLeft hwidth hleft
      exact ⟨cutLeft, shownLeft, shownRight, cutRight, hcut, hright, by rw [hdrop], hfits.le,
        fun h => absurd h hlong, hne⟩

/-- A quotation of a line, given before and from a place in it. -/
structure Quotation (left right : List Char) where
  /-- The line with its tabs expanded is what is cut off at the left, what is shown, and what is cut
  off at the right. -/
  cutLeft : List Char
  shown : List Char
  cutRight : List Char
  /-- The part before the place with its tabs expanded. -/
  front : List Char
  line_expands : Text.Expands 8 0 (left ++ right) (cutLeft ++ shown ++ cutRight)
  front_expands : Text.Expands 8 0 left front
  width_le : (mark cutLeft ++ shown ++ mark cutRight).length ≤ 56
  /-- A line that is not too long is shown as it is. -/
  uncut : (cutLeft ++ shown ++ cutRight).length ≤ 56 → cutLeft = [] ∧ cutRight = []
  /-- The place is not in the part that is cut off at the left. -/
  cutLeft_le : cutLeft.length ≤ front.length
  /-- The first column of the character at the place is shown. -/
  front_lt : right ≠ [] → front.length < (cutLeft ++ shown).length
  /-- A place at the end of the line is just behind what is shown. -/
  front_eq : right = [] → cutRight = [] ∧ front.length = (cutLeft ++ shown).length

/-- The quoted line. -/
def Quotation.text (q : Quotation left right) : List Char :=
  mark q.cutLeft ++ q.shown ++ mark q.cutRight

/-- The column of the place in the quoted line. -/
def Quotation.caret (q : Quotation left right) : Nat :=
  (mark q.cutLeft).length + (q.front.length - q.cutLeft.length)

/-- What is rendered before the quoted line. -/
def heading (l : Location) : String :=
  let place := match l.file with
    | some file => s!" in {file}"
    | none => ""
  s!"\nError location: line {l.lineAndColumn.1}, column {l.lineAndColumn.2}{place}:\n"

/-- A row that is not empty is quoted with a caret under its place. -/
theorem exists_quotation (r : Row) : ∃ q : Quotation r.before r.after,
    quoteRow r = q.text ++ '\n' :: (List.replicate q.caret ' ' ++ ['^']) := by
  have hwidth : 0 < 8 := by decide
  obtain ⟨cutLeft, shownLeft, shownRight, cutRight, hleft, hright, hclip, hfits, huncut, hne⟩ :=
    exists_clip (Text.expandTabs 8 0 r.before)
      (Text.expandTabs 8 (Text.expandTabs 8 0 r.before).length r.after)
  have hline : Text.expandTabs 8 0 (r.before ++ r.after) =
      cutLeft ++ (shownLeft ++ shownRight) ++ cutRight := by
    rw [Text.expandTabs_append, Nat.zero_add, hright, hleft]
    simp
  let q : Quotation r.before r.after :=
    { cutLeft := cutLeft
      shown := shownLeft ++ shownRight
      cutRight := cutRight
      front := Text.expandTabs 8 0 r.before
      line_expands := hline ▸ Text.expands_expandTabs hwidth 0 _
      front_expands := Text.expands_expandTabs hwidth 0 _
      width_le := by simpa [Nat.add_assoc] using hfits
      uncut := by
        intro h
        refine huncut ?_
        rw [hright, hleft]
        simpa [Nat.add_assoc] using h
      cutLeft_le := by simp [hleft]
      front_lt := by
        intro h
        have hshown := List.length_pos_of_ne_nil (hne (Text.expandTabs_ne_nil hwidth h))
        rw [hleft]
        simp
        omega
      front_eq := by
        intro h
        rw [h, Text.expandTabs, eq_comm, List.append_eq_nil_iff] at hright
        simp [hleft, hright] }
  refine ⟨q, ?_⟩
  have hcaret : (mark cutLeft ++ shownLeft).length = q.caret := by
    simp [Quotation.caret, q, hleft]
  rw [quoteRow, tabWidth]
  simp only [hclip, hcaret]
  simp [Quotation.text, q]

theorem render_inside {l : Location} (h : l.position < l.text.utf8ByteSize)
    (hrow : ¬(l.row.before.isEmpty && l.row.after.isEmpty)) :
    l.render = l.heading ++ String.ofList (quoteRow l.row) := by
  unfold render heading
  dsimp only
  rw [if_neg h.ne, if_neg (Nat.not_lt.2 h.le), if_neg hrow]
  rfl

/-- For a place inside of a text, on a line that is not empty, the location is rendered without a
failing check, as a heading, a quotation of the line and a caret under the place. -/
theorem render_quotes {before after : List Char} (inside : after ≠ [])
    (nonempty : Text.lineAround before after ≠ ([], [])) (file : Option String) :
    (between before after file).renderByBytes? = some (between before after file).render ∧
      ∃ q : Quotation (Text.lineAround before after).1 (Text.lineAround before after).2,
        (between before after file).render = (between before after file).heading ++
          String.ofList (q.text ++ '\n' :: (List.replicate q.caret ' ' ++ ['^'])) := by
  refine ⟨renderByBytes?_eq before after file, ?_⟩
  obtain ⟨c, after, rfl⟩ := List.exists_cons_of_ne_nil inside
  have hrow := row_between before (c :: after) file
  have hinside := position_lt_size before after c file
  obtain ⟨hbefore, hafter⟩ := rowAt_line before after c
  have hshown : ¬((rowAt before (c :: after)).before.isEmpty &&
      (rowAt before (c :: after)).after.isEmpty) := by
    rw [hbefore, hafter]
    simpa [Prod.ext_iff] using nonempty
  rw [← hbefore, ← hafter]
  obtain ⟨q, hq⟩ := exists_quotation (rowAt before (c :: after))
  refine ⟨q, ?_⟩
  rw [← hq, ← hrow]
  refine render_inside hinside ?_
  rwa [hrow]

/-- A line that is too long on both sides of the place. -/
theorem render_quotes_clipped :
    'X' :: List.replicate 8 'b' ≠ [] ∧
      Text.lineAround ('\t' :: List.replicate 45 'é') ('X' :: List.replicate 8 'b') ≠ ([], []) ∧
      (between ('\t' :: List.replicate 45 'é') ('X' :: List.replicate 8 'b') none).renderByBytes? =
        some ("\nError location: line 1, column 47:\n" ++ String.ofList
          ("...  ".toList ++ List.replicate 45 'é' ++ "Xbb...\n".toList ++ List.replicate 50 ' ' ++
            ['^'])) := by
  have hline : Text.lineAround ('\t' :: List.replicate 45 'é') ('X' :: List.replicate 8 'b') ≠
      ([], []) := by decide
  refine ⟨by simp, hline, ?_⟩
  rw [(render_quotes (by simp) hline none).1]
  decide +kernel

end Location
end TextualData
