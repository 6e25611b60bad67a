import TextualData.Text.Lines

/-!
# Slices of a text

`Slices.cut` cuts a text at each occurrence of a separator. A line feed in the separator stands
for any line break, and blanks right before a line break inside the separator are passed over.
-/

namespace TextualData
namespace Slices

/-- How a text is cut. -/
structure Plan where
  /-- The separator, with a line feed for each line break. -/
  separator : List Char := ['\n']
  /-- Whether blanks at the ends of the slices are taken off. -/
  trim : Bool := false
  /-- Whether the last slice is left out if it is empty. -/
  dropEmptyLast : Bool := true
  separator_ne_nil : separator ≠ [] := by decide

/-- Whether blanks of this kind may stand before a line break of the separator. -/
def isPadding (c : Char) : Bool :=
  c == ' ' || c == '\t'

/-- What follows the line break at the start of a text, if one stands there. -/
def afterLineBreak? : List Char → Option (List Char)
  | '\r' :: '\n' :: l => some l
  | c :: l => if Text.isLineBreak c then some l else none
  | [] => none

theorem length_lt_of_afterLineBreak? {l rest : List Char} (h : afterLineBreak? l = some rest) :
    rest.length < l.length := by
  unfold afterLineBreak? at h
  split at h
  · cases h; simp only [List.length_cons]; omega
  · split at h
    · cases h; simp
    · cases h
  · cases h

/-- What follows the separator at the start of a text, if it stands there. At the opening of the
separator no blanks are passed over. -/
def afterSeparator? (opening : Bool) (separator l : List Char) : Option (List Char) :=
  match separator with
  | [] => some l
  | s :: separator =>
    match l with
    | [] => none
    | c :: m =>
      if s = '\n' then
        match _h : afterLineBreak? (c :: m) with
        | some rest => afterSeparator? false separator rest
        | none =>
          if isPadding c && !opening then afterSeparator? opening (s :: separator) m else none
      else if s = c then afterSeparator? false separator m
      else none
termination_by l.length
decreasing_by
  · exact length_lt_of_afterLineBreak? _h
  · simp
  · simp

theorem length_le_of_afterSeparator? {opening : Bool} {sep l rest : List Char}
    (h : afterSeparator? opening sep l = some rest) : rest.length ≤ l.length := by
  fun_induction afterSeparator? opening sep l with
  | case1 => simp_all
  | case2 => simp at h
  | case3 opening sep c m after hb ih =>
    have := ih h
    have := length_lt_of_afterLineBreak? hb
    omega
  | case4 opening sep c m hb hp ih => have := ih h; simp; omega
  | case5 => simp at h
  | case6 opening sep c m hs ih => have := ih h; simp; omega
  | case7 => simp at h

/-- A separator that is not empty takes up some of the text. -/
theorem length_lt_of_afterSeparator? {opening : Bool} {sep l rest : List Char} (hsep : sep ≠ [])
    (h : afterSeparator? opening sep l = some rest) : rest.length < l.length := by
  unfold afterSeparator? at h
  split at h
  · exact absurd rfl hsep
  · split at h
    · simp at h
    · split at h
      · split at h
        · rename_i hb
          have := length_le_of_afterSeparator? h
          have := length_lt_of_afterLineBreak? hb
          omega
        · split at h
          · have := length_le_of_afterSeparator? h
            simp; omega
          · simp at h
      · split at h
        · have := length_le_of_afterSeparator? h
          simp; omega
        · simp at h

/-- The slices of a text, the first of which begins with the characters of `item`, last first. -/
def cutFrom (plan : Plan) (item : List Char) (l : List Char) : List (List Char) :=
  match l with
  | [] => [item.reverse]
  | c :: l =>
    match _h : afterSeparator? true plan.separator (c :: l) with
    | some rest => item.reverse :: cutFrom plan [] rest
    | none => cutFrom plan (c :: item) l
termination_by l.length
decreasing_by
  · exact length_lt_of_afterSeparator? plan.separator_ne_nil _h
  · simp

/-- The list without its last item if that is empty. -/
def dropEmptyEnd (items : List (List Char)) : List (List Char) :=
  if items.getLast? = some [] then items.dropLast else items

/-- The slices of a text. -/
def cut (plan : Plan) (l : List Char) : List (List Char) :=
  let items := cutFrom plan [] l
  let items := if plan.trim then items.map (Text.trim Text.isBlank) else items
  if plan.dropEmptyLast then dropEmptyEnd items else items

end Slices
end TextualData
