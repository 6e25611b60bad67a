import Mathlib.Data.Finset.Lattice.Fold
import Mathlib.Data.List.DropRight
import Mathlib.Order.Lattice.Nat
import TextualData.Location
import TextualData.Proofs.Windows

/-!
# Lines and columns

A line of a text begins where a line break ends (`Text.EndsLineBreak`), and lines and columns are
counted from one by `Text.lineAndColumn`. A location has the line and the column of its place,
unless it is at the end of a text that ends with a line break.
-/

namespace TextualData

namespace Text

/-- A line break of a text ends between the two parts of the text. A carriage return and the line
feed after it are one line break. -/
inductive EndsLineBreak : (before after : List Char) → Prop where
  | lineFeed {front after : List Char} (alone : front.getLast? ≠ some '\r') :
      EndsLineBreak (front ++ ['\n']) after
  | carriageReturn {front after : List Char} (alone : after.head? ≠ some '\n') :
      EndsLineBreak (front ++ ['\r']) after
  | pair {front after : List Char} : EndsLineBreak (front ++ ['\r', '\n']) after

theorem endsLineBreak_iff {before after : List Char} : EndsLineBreak before after ↔
    before.getLast? = some '\n' ∨ before.getLast? = some '\r' ∧ after.head? ≠ some '\n' := by
  constructor
  · rintro (_ | alone | _)
    · exact .inl (by simp)
    · exact .inr ⟨by simp, alone⟩
    · exact .inl (by simp)
  · rintro (h | ⟨h, alone⟩)
    · obtain ⟨front, rfl⟩ := List.getLast?_eq_some_iff.1 h
      by_cases hpair : front.getLast? = some '\r'
      · obtain ⟨front, rfl⟩ := List.getLast?_eq_some_iff.1 hpair
        rw [List.append_assoc]
        exact .pair
      · exact .lineFeed hpair
    · obtain ⟨front, rfl⟩ := List.getLast?_eq_some_iff.1 h
      exact .carriageReturn alone

instance (before after : List Char) : Decidable (EndsLineBreak before after) :=
  decidable_of_iff _ endsLineBreak_iff.symm

/-- The places of a text before the given one at which a line break ends, counted in characters. -/
def lineBreaksBefore (text : List Char) (place : Nat) : Finset Nat :=
  (Finset.range place).filter fun n => EndsLineBreak (text.take n) (text.drop n)

/-- The parts of a text before and from a place. The place between the two halves of a line break
counts as the place of the carriage return. -/
def outsidePair (before after : List Char) : List Char × List Char :=
  if before.getLast? = some '\r' ∧ after.head? = some '\n' then (before.dropLast, '\r' :: after)
  else (before, after)

/-- The places where a line break ends, up to the place between two parts of a text. -/
def lineBreaksUpTo (before after : List Char) : Finset Nat :=
  lineBreaksBefore (before ++ after) ((outsidePair before after).1.length + 1)

/-- The line and the column of the place between two parts of a text. The line is one more than the
number of line breaks that end at the place or before it, the column one more than the number of
characters since the last of them. -/
def lineAndColumn (before after : List Char) : Nat × Nat :=
  let place := (outsidePair before after).1.length
  let breaks := lineBreaksUpTo before after
  (1 + breaks.card, 1 + (place - breaks.sup id))

variable {before after text : List Char} {n place : Nat}

theorem lt_of_mem_lineBreaksBefore (h : n ∈ lineBreaksBefore text place) : n < place :=
  Finset.mem_range.1 (Finset.mem_filter.1 h).1

theorem sup_lineBreaksBefore_le (text : List Char) (place : Nat) :
    (lineBreaksBefore text place).sup id ≤ place - 1 :=
  Finset.sup_le fun _ h => Nat.le_sub_one_of_lt (lt_of_mem_lineBreaksBefore h)

/-- A line break that ends at the place is the last one. -/
theorem lineBreaksBefore_of_ends (h : EndsLineBreak before after) :
    (lineBreaksBefore (before ++ after) (before.length + 1)).card =
        (lineBreaksBefore (before ++ after) before.length).card + 1 ∧
      (lineBreaksBefore (before ++ after) (before.length + 1)).sup id = before.length := by
  have hinsert : lineBreaksBefore (before ++ after) (before.length + 1) =
      insert before.length (lineBreaksBefore (before ++ after) before.length) := by
    rw [lineBreaksBefore, Finset.range_add_one, Finset.filter_insert, List.take_left,
      List.drop_left, if_pos h, lineBreaksBefore]
  have hnot : before.length ∉ lineBreaksBefore (before ++ after) before.length :=
    fun hmem => (lt_of_mem_lineBreaksBefore hmem).ne rfl
  have hsup : (lineBreaksBefore (before ++ after) before.length).sup id ≤ before.length :=
    (sup_lineBreaksBefore_le _ _).trans (Nat.sub_le _ _)
  rw [hinsert, Finset.card_insert_of_notMem hnot, Finset.sup_insert]
  exact ⟨rfl, max_eq_left hsup⟩

theorem lineBreaksBefore_of_not_ends (h : ¬EndsLineBreak before after) :
    lineBreaksBefore (before ++ after) (before.length + 1) =
      lineBreaksBefore (before ++ after) before.length := by
  rw [lineBreaksBefore, Finset.range_add_one, Finset.filter_insert, List.take_left,
    List.drop_left, if_neg h, lineBreaksBefore]

/-- A place is outside of a pair already, or just before the line feed of a pair. -/
theorem outsidePair_cases (before after : List Char) :
    outsidePair before after = (before, after) ∧
        ¬(before.getLast? = some '\r' ∧ after.head? = some '\n') ∨
      ∃ front back, before = front ++ ['\r'] ∧ after = '\n' :: back ∧
        outsidePair before after = (front, '\r' :: after) := by
  by_cases h : before.getLast? = some '\r' ∧ after.head? = some '\n'
  · obtain ⟨front, rfl⟩ := List.getLast?_eq_some_iff.1 h.1
    obtain ⟨back, rfl⟩ := List.head?_eq_some_iff.1 h.2
    exact .inr ⟨front, back, rfl, rfl, by simp [outsidePair]⟩
  · exact .inl ⟨if_neg h, h⟩

theorem outsidePair_append (before after : List Char) :
    (outsidePair before after).1 ++ (outsidePair before after).2 = before ++ after := by
  rcases outsidePair_cases before after with ⟨houtside, -⟩ | ⟨front, back, rfl, rfl, houtside⟩ <;>
    simp [houtside]

/-- No line break ends between the two halves of a line break. -/
theorem lineBreaksUpTo_pair (front back : List Char) :
    lineBreaksUpTo (front ++ ['\r']) ('\n' :: back) =
      lineBreaksBefore (front ++ ['\r'] ++ '\n' :: back) (front ++ ['\r']).length := by
  simp [lineBreaksUpTo, outsidePair]

/-- The line breaks up to a place are those up to the character at the place. -/
theorem lineBreaksUpTo_eq (before after : List Char) :
    lineBreaksUpTo before after = lineBreaksBefore (before ++ after) (before.length + 1) := by
  rcases outsidePair_cases before after with ⟨houtside, -⟩ | ⟨front, back, rfl, rfl, -⟩
  · rw [lineBreaksUpTo, houtside]
  · have hends : ¬EndsLineBreak (front ++ ['\r']) ('\n' :: back) := by simp [endsLineBreak_iff]
    rw [lineBreaksUpTo_pair, lineBreaksBefore_of_not_ends hends]

theorem sup_lineBreaksUpTo_le (before after : List Char) :
    (lineBreaksUpTo before after).sup id ≤ (outsidePair before after).1.length :=
  sup_lineBreaksBefore_le _ _

end Text

namespace Location

open Text

variable {before after : List Char} {c : Char}

theorem beginsLine_iff : beginsLine before.getLast? c ↔ EndsLineBreak before (c :: after) := by
  simp [beginsLine, endsLineBreak_iff]

/-- The line number and the current line, nearest character first, after the characters before a
place. -/
theorem foldl_walk (before after : List Char) : before.foldl walk (1, [], none) =
    (1 + (lineBreaksBefore (before ++ after) before.length).card,
      (before.drop ((lineBreaksBefore (before ++ after) before.length).sup id)).reverse,
      before.getLast?) := by
  -- From the end, for any text behind it: what comes next decides where a line break ends.
  induction before using List.reverseRecOn generalizing after with
  | nil => rfl
  | append_singleton before c ih =>
    have hassoc : before ++ [c] ++ after = before ++ c :: after := by simp
    rw [List.foldl_append, ih (c :: after), List.foldl_cons, List.foldl_nil, walk, hassoc,
      List.length_append, List.length_singleton, List.getLast?_concat]
    by_cases hends : EndsLineBreak before (c :: after)
    · obtain ⟨hcard, hsup⟩ := lineBreaksBefore_of_ends hends
      simp [beginsLine_iff.2 hends, hcard, hsup, Nat.add_assoc]
    · have hbegins : ¬beginsLine before.getLast? c := mt beginsLine_iff.1 hends
      rw [if_neg hbegins, lineBreaksBefore_of_not_ends hends, List.drop_append_of_le_length
        ((sup_lineBreaksBefore_le _ _).trans (Nat.sub_le _ _))]
      simp

/-- The location between two parts of a text. -/
def between (before after : List Char) (file : Option String) : Location :=
  ⟨String.ofList (before ++ after), byteSize before, file⟩

theorem row_between (before after : List Char) (file : Option String) :
    (between before after file).row = rowAt before after := by
  simp [between, row, splitAtByte_byteSize]

/-- Inside of a text, a row holds the characters since the last line break and up to the next
one. -/
theorem rowAt_cons (before after : List Char) (c : Char) : rowAt before (c :: after) =
    { number := 1 + (lineBreaksUpTo before (c :: after)).card
      before := (outsidePair before (c :: after)).1.drop
        ((lineBreaksUpTo before (c :: after)).sup id)
      after := (outsidePair before (c :: after)).2.takeWhile fun c => !isLineBreak c } := by
  rw [rowAt, foldl_walk before (c :: after)]
  rcases outsidePair_cases before (c :: after) with ⟨houtside, noPair⟩ |
    ⟨front, back, rfl, hpair, houtside⟩
  · rw [houtside, lineBreaksUpTo_eq]
    by_cases hends : EndsLineBreak before (c :: after)
    · obtain ⟨hcard, hsup⟩ := lineBreaksBefore_of_ends hends
      simp [beginsLine_iff.2 hends, hcard, hsup, Nat.add_assoc]
    · have hbegins : ¬beginsLine before.getLast? c := mt beginsLine_iff.1 hends
      have hreturn : before.getLast? ≠ some '\r' := fun h =>
        hends (endsLineBreak_iff.2 (.inr ⟨h, fun hc => noPair ⟨h, hc⟩⟩))
      simp [hbegins, hreturn, lineBreaksBefore_of_not_ends hends]
  · -- Between the halves of a line break the row ends in front of the carriage return.
    obtain ⟨rfl, rfl⟩ := List.cons.inj hpair
    have hsup : (lineBreaksBefore (front ++ ['\r'] ++ '\n' :: after)
        (front ++ ['\r']).length).sup id ≤ front.length := by
      simpa using sup_lineBreaksBefore_le (front ++ ['\r'] ++ '\n' :: after)
        (front ++ ['\r']).length
    rw [houtside, lineBreaksUpTo_pair, List.drop_append_of_le_length hsup]
    simp [beginsLine, isLineBreak]

theorem rowAt_nil (before : List Char) : rowAt before [] =
    { number := 1 + (lineBreaksBefore before before.length).card
      before := before.drop ((lineBreaksBefore before before.length).sup id)
      after := [] } := by
  have h := foldl_walk before []
  rw [List.append_nil] at h
  simp [rowAt, h]

/-- A location has the line and the column of its place, unless it is at the end of a text that ends
with a line break: the line that begins there is not counted. -/
theorem lineAndColumn_eq_iff (before after : List Char) (file : Option String) :
    (between before after file).lineAndColumn = Text.lineAndColumn before after ↔
      ¬(after = [] ∧ ∃ c ∈ before.getLast?, isLineBreak c) := by
  rw [lineAndColumn, row_between]
  cases after with
  | cons c after => simp [rowAt_cons, Text.lineAndColumn, Nat.add_comm]
  | nil =>
    have hends : EndsLineBreak before [] ↔ ∃ c ∈ before.getLast?, isLineBreak c := by
      rw [endsLineBreak_iff]
      cases before.getLast? <;> simp [isLineBreak]
    have houtside : outsidePair before [] = (before, []) := if_neg (by simp)
    rw [← hends, rowAt_nil, Text.lineAndColumn, houtside, lineBreaksUpTo_eq, Prod.mk.injEq]
    by_cases h : EndsLineBreak before []
    · have hcard := (lineBreaksBefore_of_ends h).1
      rw [List.append_nil] at hcard ⊢
      simp [h, hcard]
    · rw [lineBreaksBefore_of_not_ends h, List.append_nil]
      simp [h, Nat.add_comm]

/-- After the last line break of a text, its line goes on. -/
theorem lineAndColumn_after_last_break :
    (between ['a', '\n'] [] none).lineAndColumn = (1, 3) ∧
      Text.lineAndColumn ['a', '\n'] [] = (2, 1) := by
  decide

end Location
end TextualData
