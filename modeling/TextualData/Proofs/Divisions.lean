import TextualData.Slices.Basic

/-!
# Dividing a text

A text divides into items and the separators between them: each separator is one that is found where
it stands, and none is found at a place inside an item (`Slices.Divides`). There is exactly one such
division of a text, and the slices of the text are its items (`Slices.cut_divides`).
-/

namespace TextualData
namespace Slices

/-- No separator is found at a place inside an item with the given text behind it. -/
def Misses (separator item after : List Char) : Prop :=
  ∀ front back, item = front ++ back → back ≠ [] →
    afterSeparator? true separator (back ++ after) = none

/-- A text is made of pieces, which are items with the separators found after them, and of a last
item, up to the end of the text. -/
inductive Divides (separator : List Char) :
    List Char → List (List Char × List Char) → List Char → Prop where
  | last {item : List Char} (misses : Misses separator item []) : Divides separator item [] item
  | next {item found rest last : List Char} {pieces : List (List Char × List Char)}
      (misses : Misses separator item (found ++ rest))
      (isFound : afterSeparator? true separator (found ++ rest) = some rest)
      (more : Divides separator rest pieces last) :
      Divides separator (item ++ (found ++ rest)) ((item, found) :: pieces) last

/-- An item as a slice. -/
def shown (plan : Plan) (item : List Char) : List Char :=
  if plan.trim then Text.trim Text.isBlank item else item

variable {separator item item' found l rest after last last' : List Char} {opening : Bool}
  {pieces pieces' : List (List Char × List Char)} {plan : Plan} {c : Char}

/-- A line break is passed as a whole. -/
theorem exists_of_afterLineBreak? (h : afterLineBreak? l = some rest) :
    ∃ found, l = found ++ rest := by
  unfold afterLineBreak? at h
  split at h
  · exact ⟨['\r', '\n'], by rw [← Option.some.inj h]; rfl⟩
  · next c l _ =>
    rw [Option.ite_none_right_eq_some] at h
    exact ⟨[c], by rw [← Option.some.inj h.2]; rfl⟩
  · cases h

/-- What follows a separator is the rest of the text. -/
theorem exists_of_afterSeparator? (h : afterSeparator? opening separator l = some rest) :
    ∃ found, l = found ++ rest := by
  fun_induction afterSeparator? opening separator l with
  | case1 => exact ⟨[], Option.some.inj h⟩
  | case2 => cases h
  | case3 _ _ c m after hbreak ih =>
    obtain ⟨lineBreak, hl⟩ := exists_of_afterLineBreak? hbreak
    obtain ⟨found, rfl⟩ := ih h
    exact ⟨lineBreak ++ found, by rw [hl, List.append_assoc]⟩
  | case4 _ _ c m _ _ ih =>
    obtain ⟨found, rfl⟩ := ih h
    exact ⟨c :: found, rfl⟩
  | case5 => cases h
  | case6 _ _ c m _ ih =>
    obtain ⟨found, rfl⟩ := ih h
    exact ⟨c :: found, rfl⟩
  | case7 => cases h

/-- No separator is found at the end of a text. -/
theorem afterSeparator?_nil (hsep : separator ≠ []) :
    afterSeparator? opening separator [] = none := by
  unfold afterSeparator?
  split
  · exact absurd rfl hsep
  · rfl

theorem misses_nil : Misses separator [] after :=
  fun _ _ h hne => absurd (List.append_eq_nil_iff.1 h.symm).2 hne

/-- An item in which no separator is found grows by a character at which none is found either. -/
theorem Misses.concat (h : Misses separator item (c :: l))
    (hc : afterSeparator? true separator (c :: l) = none) : Misses separator (item ++ [c]) l := by
  intro front back heq hne
  obtain ⟨back, d, rfl⟩ := (List.eq_nil_or_concat back).resolve_left hne
  rw [List.concat_eq_append] at heq ⊢
  rw [← List.append_assoc] at heq
  obtain ⟨rfl, hd⟩ := List.append_inj' heq rfl
  obtain rfl := List.singleton_inj.1 hd
  rw [List.append_assoc, List.singleton_append]
  by_cases hback : back = []
  · subst hback
    exact hc
  · exact h front back rfl hback

/-- The slices before trimming and leaving out are the items of a division. -/
theorem exists_divides_cutFrom (plan : Plan) (item l : List Char)
    (misses : Misses plan.separator item.reverse l) :
    ∃ pieces last, Divides plan.separator (item.reverse ++ l) pieces last ∧
      cutFrom plan item l = pieces.map Prod.fst ++ [last] := by
  fun_induction cutFrom plan item l with
  | case1 item => exact ⟨[], item.reverse, by simpa using Divides.last misses, rfl⟩
  | case2 item c l rest hfound ih =>
    obtain ⟨found, hl⟩ := exists_of_afterSeparator? hfound
    obtain ⟨pieces, last, hdivides, hitems⟩ := ih misses_nil
    rw [hl] at hfound misses ⊢
    exact ⟨(item.reverse, found) :: pieces, last, .next misses hfound hdivides, by simp [hitems]⟩
  | case3 item c l hnone ih =>
    rw [List.reverse_cons] at ih
    obtain ⟨pieces, last, hdivides, hitems⟩ := ih (misses.concat hnone)
    exact ⟨pieces, last, by simpa using hdivides, hitems⟩

/-- Where a separator is found, an item ends. -/
theorem Misses.eq_nil {back : List Char} (h : Misses separator (item ++ back) after)
    (hfound : afterSeparator? true separator (back ++ after) = some rest) : back = [] := by
  cases back with
  | nil => rfl
  | cons c back =>
    rw [h item (c :: back) rfl (List.cons_ne_nil c back)] at hfound
    cases hfound

/-- The first separator of a text is found in one place only. -/
theorem Misses.item_eq {found' rest' : List Char} (h : Misses separator item (found ++ rest))
    (hfound : afterSeparator? true separator (found ++ rest) = some rest)
    (h' : Misses separator item' (found' ++ rest'))
    (hfound' : afterSeparator? true separator (found' ++ rest') = some rest')
    (heq : item ++ (found ++ rest) = item' ++ (found' ++ rest')) : item = item' := by
  rcases List.append_eq_append_iff.1 heq with ⟨back, rfl, hback⟩ | ⟨back, rfl, hback⟩
  · rw [hback] at hfound
    rw [h'.eq_nil hfound, List.append_nil]
  · rw [hback] at hfound'
    rw [h.eq_nil hfound', List.append_nil]

/-- No separator is found in a last item. -/
theorem Misses.not_found (hsep : separator ≠ [])
    (h : Misses separator (item ++ (found ++ rest)) []) :
    afterSeparator? true separator (found ++ rest) ≠ some rest := by
  intro hfound
  rw [← List.append_nil (found ++ rest)] at hfound
  rw [h.eq_nil hfound, List.append_nil, afterSeparator?_nil hsep] at hfound
  cases hfound

/-- A text divides in one way only. -/
theorem Divides.unique (hsep : separator ≠ []) (h : Divides separator l pieces last)
    (h' : Divides separator l pieces' last') : pieces' = pieces ∧ last' = last := by
  induction h generalizing pieces' with
  | @last item misses =>
    cases h' with
    | last => exact ⟨rfl, rfl⟩
    | next _ isFound _ => exact absurd isFound (misses.not_found hsep)
  | @next item found rest last pieces misses isFound more ih =>
    generalize hl : item ++ (found ++ rest) = l at h'
    cases h' with
    | last misses' =>
      subst hl
      exact absurd isFound (misses'.not_found hsep)
    | next misses' isFound' more' =>
      obtain rfl := misses.item_eq isFound misses' isFound' hl
      have hbehind := List.append_cancel_left hl
      rw [hbehind, isFound'] at isFound
      obtain rfl := Option.some.inj isFound
      obtain rfl := List.append_cancel_right hbehind
      obtain ⟨rfl, rfl⟩ := ih more'
      exact ⟨rfl, rfl⟩

/-- The last of some items is left out if it is empty. -/
theorem dropEmptyEnd_concat (items : List (List Char)) (last : List Char) :
    dropEmptyEnd (items ++ [last]) = items ++ if last = [] then [] else [last] := by
  by_cases hlast : last = []
  · simp [dropEmptyEnd, hlast]
  · simp [dropEmptyEnd, hlast]

/-- The slices of a text are the items of a division. Items are trimmed if so asked, and then a last
item that is empty is left out if so asked. -/
theorem exists_divides_cut (plan : Plan) (l : List Char) :
    ∃ pieces last, Divides plan.separator l pieces last ∧
      cut plan l = pieces.map (fun piece => shown plan piece.1) ++
        if plan.dropEmptyLast ∧ shown plan last = [] then [] else [shown plan last] := by
  obtain ⟨pieces, last, hdivides, hitems⟩ := exists_divides_cutFrom plan [] l misses_nil
  refine ⟨pieces, last, hdivides, ?_⟩
  have hshown : (if plan.trim then (cutFrom plan [] l).map (Text.trim Text.isBlank)
      else cutFrom plan [] l) =
        pieces.map (fun piece => shown plan piece.1) ++ [shown plan last] := by
    cases htrim : plan.trim <;> simp [hitems, shown, htrim]
  rw [cut, hshown, dropEmptyEnd_concat]
  cases plan.dropEmptyLast <;> simp

/-- The slices of a text are the items of its only division, one more than there are separators. -/
theorem cut_divides (plan : Plan) (l : List Char) :
    ∃ pieces last, Divides plan.separator l pieces last ∧
      (∀ pieces' last', Divides plan.separator l pieces' last' → pieces' = pieces ∧ last' = last) ∧
      cut plan l = pieces.map (fun piece => shown plan piece.1) ++
        if plan.dropEmptyLast ∧ shown plan last = [] then [] else [shown plan last] := by
  obtain ⟨pieces, last, hdivides, hitems⟩ := exists_divides_cut plan l
  exact ⟨pieces, last, hdivides, fun _ _ => hdivides.unique plan.separator_ne_nil, hitems⟩

end Slices
end TextualData
