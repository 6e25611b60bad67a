import Mathlib.Data.List.DropRight
import TextualData.Text.Blank

/-!
# Trimmed texts

`Text.trim` leaves a text without characters of the class at its ends (`Text.isTrimmed_trim`), and
such a text is left as it is (`Text.IsTrimmed.trim_eq`). What is trimmed off are characters of the
class, and these alone (`Text.trims_iff`).
-/

namespace TextualData
namespace Text

/-- The text neither begins nor ends with a character of the class. -/
structure IsTrimmed (p : Char → Bool) (l : List Char) : Prop where
  head : ∀ x ∈ l.head?, p x = false
  last : ∀ x ∈ l.getLast?, p x = false

/-- The text has characters of the class on both sides of a core that is trimmed. -/
inductive Trims (p : Char → Bool) : List Char → List Char → Prop where
  | intro {before core after : List Char} (classBefore : ∀ x ∈ before, p x)
      (isTrimmed : IsTrimmed p core) (classAfter : ∀ x ∈ after, p x) :
      Trims p (before ++ core ++ after) core

variable {p q : Char → Bool} {l before core after : List Char}

theorem trim_eq_rdropWhile (p : Char → Bool) (l : List Char) :
    trim p l = (l.dropWhile p).rdropWhile p :=
  rfl

theorem rdropWhile_append_of_forall (hafter : ∀ x ∈ after, p x) :
    (l ++ after).rdropWhile p = l.rdropWhile p := by
  rw [List.rdropWhile, List.reverse_append,
    List.dropWhile_append_of_pos fun x hx => hafter x (List.mem_reverse.1 hx), List.rdropWhile]

/-- What stands around a text is trimmed off before the end of the text itself is. -/
theorem trim_enclosed (hbefore : ∀ x ∈ before, p x) (hcore : ∀ x ∈ core.head?, p x = false)
    (hafter : ∀ x ∈ after, p x) : trim p (before ++ core ++ after) = core.rdropWhile p := by
  rw [trim_eq_rdropWhile, List.append_assoc, List.dropWhile_append_of_pos hbefore]
  cases core with
  | nil =>
    rw [List.nil_append, List.dropWhile_eq_nil_iff.2 hafter]
  | cons x core =>
    rw [List.cons_append, List.dropWhile_cons_of_neg (by simp [hcore x rfl]), ← List.cons_append,
      rdropWhile_append_of_forall hafter]

theorem IsTrimmed.rdropWhile_eq (h : IsTrimmed p l) : l.rdropWhile p = l := by
  rw [List.rdropWhile_eq_self_iff]
  intro hne hlast
  rw [h.last _ (List.getLast_mem_getLast? hne)] at hlast
  cases hlast

theorem Trims.trim_eq (h : Trims p l core) : trim p l = core := by
  obtain ⟨hbefore, isTrimmed, hafter⟩ := h
  rw [trim_enclosed hbefore isTrimmed.head hafter, isTrimmed.rdropWhile_eq]

/-- A text that is trimmed stays as it is. -/
theorem IsTrimmed.trim_eq (h : IsTrimmed p l) : trim p l = l := by
  have htrims : Trims p ([] ++ l ++ []) l := .intro nofun h nofun
  rw [List.nil_append, List.append_nil] at htrims
  exact htrims.trim_eq

theorem isTrimmed_trim (p : Char → Bool) (l : List Char) : IsTrimmed p (trim p l) := by
  rw [trim_eq_rdropWhile]
  constructor
  · intro x hx
    obtain ⟨rest, hrest⟩ := List.rdropWhile_prefix p (l.dropWhile p)
    have hhead : (l.dropWhile p).head? = some x := by
      rw [← hrest, List.head?_append, Option.mem_def.1 hx, Option.some_or]
    have hnot := List.head?_dropWhile_not p l
    rw [hhead] at hnot
    exact hnot
  · intro x hx
    obtain ⟨hne, rfl⟩ := List.mem_getLast?_eq_getLast hx
    exact eq_false_of_ne_true (List.rdropWhile_last_not p _ hne)

/-- Trimming takes off characters of the class, up to the first and the last other one. -/
theorem trims_iff : Trims p l core ↔ trim p l = core := by
  constructor
  · exact Trims.trim_eq
  · rintro rfl
    have hparts : l.takeWhile p ++ trim p l ++ (l.dropWhile p).rtakeWhile p = l := by
      rw [List.append_assoc, trim_eq_rdropWhile, List.rdropWhile_append_rtakeWhile,
        List.takeWhile_append_dropWhile]
    have htrims : Trims p (l.takeWhile p ++ trim p l ++ (l.dropWhile p).rtakeWhile p) (trim p l) :=
      .intro (fun _ => List.mem_takeWhile_imp) (isTrimmed_trim p l) fun _ => List.mem_rtakeWhile_imp
    rwa [hparts] at htrims

@[simp] theorem trim_trim (p : Char → Bool) (l : List Char) : trim p (trim p l) = trim p l :=
  (isTrimmed_trim p l).trim_eq

theorem trim_sublist (p : Char → Bool) (l : List Char) : (trim p l).Sublist l := by
  have hbegins := List.rdropWhile_prefix p (l.dropWhile p)
  exact hbegins.sublist.trans (l.dropWhile_sublist p)

/-- What trimming takes off at the end does not matter if it is filtered out anyway. -/
theorem filter_rdropWhile (h : ∀ x ∈ l.rtakeWhile p, q x = false) :
    (l.rdropWhile p).filter q = l.filter q := by
  have hnone : (l.rtakeWhile p).filter q = [] :=
    List.filter_eq_nil_iff.2 fun x hx => by simp [h x hx]
  have hparts := congrArg (List.filter q) (List.rdropWhile_append_rtakeWhile (p := p) (l := l))
  rwa [List.filter_append, hnone, List.append_nil] at hparts

end Text
end TextualData
