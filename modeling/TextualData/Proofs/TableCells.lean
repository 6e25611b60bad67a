import TextualData.Proofs.LowerCase
import TextualData.Proofs.Numerals
import TextualData.Table.Basic

/-!
# Cells of a table

A cell gives a value of the type of its column, or nothing if it is empty (`Table.Gives`); other
cells are refused (`Table.Refuses`). Both are stated on the cell as it stands in the file. Its text
is what the options leave of it (`Table.Shows`); a number is a numeral after its separators and its
point are replaced (`Table.Unformats`), and a boolean is a word in any letter case. Each cell is
read so (`Table.cellValue_of_gives`, `Table.cellValue_of_refuses`).
-/

namespace TextualData
namespace Table

open Numeral (IsInteger)
open Decimal (IsSpacedNumeral)
open Text (Trims)

/-- The part of a cell that counts: all of it, or what is left without the blanks around it if the
options ask for that. -/
inductive IsPart (o : Options) : List Char → List Char → Prop where
  | whole {l : List Char} (untrimmed : o.trimCells = false) : IsPart o l l
  | core {l core : List Char} (trimmed : o.trimCells = true) (trims : Trims Text.isBlank l core) :
      IsPart o l core

/-- The text of a cell: the part that counts, or nothing if the options list this part as an empty
value. -/
inductive Shows (o : Options) (cell : String) : List Char → Prop where
  | text {l : List Char} (isPart : IsPart o cell.toList l)
      (notEmpty : String.ofList l ∉ o.emptyValues) : Shows o cell l
  | empty {l : List Char} (isPart : IsPart o cell.toList l)
      (isEmpty : String.ofList l ∈ o.emptyValues) : Shows o cell []

/-- The text of a cell has just this between the blanks around it. -/
def Holds (o : Options) (cell : String) (core : List Char) : Prop :=
  ∃ l, Shows o cell l ∧ Trims Text.isBlank l core

/-- A number as it is written in a cell, and the numeral for it: separators between digits are left
out, and the decimal separator stands for a point. -/
inductive Unformats (o : Options) : List Char → List Char → Prop where
  | nil : Unformats o [] []
  | grouping {x : Char} {l numeral : List Char} (isGrouping : o.groupingSeparator = some x)
      (more : Unformats o l numeral) : Unformats o (x :: l) numeral
  | point {x : Char} {l numeral : List Char} (noGrouping : o.groupingSeparator ≠ some x)
      (isPoint : o.decimalSeparator = x) (more : Unformats o l numeral) :
      Unformats o (x :: l) ('.' :: numeral)
  | other {x : Char} {l numeral : List Char} (noGrouping : o.groupingSeparator ≠ some x)
      (noPoint : o.decimalSeparator ≠ x) (more : Unformats o l numeral) :
      Unformats o (x :: l) (x :: numeral)

/-- The number that a numeral denotes: an integer if it is one that fits in 64 bits, and a decimal
otherwise. -/
inductive NumeralMeans : List Char → Value → Prop where
  | integer {l : List Char} {n : Int64} (isInteger : IsInteger l n.toInt) :
      NumeralMeans l (.integer n)
  | decimal {l : List Char} {d : Decimal} (noInteger : ∀ n : Int64, ¬IsInteger l n.toInt)
      (isNumeral : IsSpacedNumeral l d.unscaled d.scale.toInt) : NumeralMeans l (.decimal d)

/-- A text as a word, in which letter case does not matter. -/
def wordOf (l : List Char) : String :=
  String.ofList (Text.lowerCase l)

/-- The truth value of a word. The words that the options add go first. -/
inductive WordMeans (o : Options) : String → Bool → Prop where
  | altTrue {word : String} (isWord : o.altTrue = some word) : WordMeans o word true
  | altFalse {word : String} (notTrue : o.altTrue ≠ some word) (isWord : o.altFalse = some word) :
      WordMeans o word false
  | isTrue {word : String} (notTrue : o.altTrue ≠ some word) (notFalse : o.altFalse ≠ some word)
      (isWord : word ∈ ["true", "yes", "y", "1"]) : WordMeans o word true
  | isFalse {word : String} (notTrue : o.altTrue ≠ some word) (notFalse : o.altFalse ≠ some word)
      (isWord : word ∈ ["false", "no", "n", "0"]) : WordMeans o word false

/-- What a cell gives in a column of a type. -/
inductive Gives (o : Options) (cell : String) : ColumnType → Option Value → Prop where
  | string {l : List Char} (shows : Shows o cell l) :
      Gives o cell .string (some (.string (String.ofList l)))
  | noNumber {core : List Char} (holds : Holds o cell core) (unformats : Unformats o core []) :
      Gives o cell .number none
  | number {core numeral : List Char} {v : Value} (holds : Holds o cell core)
      (unformats : Unformats o core numeral) (means : NumeralMeans numeral v) :
      Gives o cell .number (some v)
  | noBoolean (holds : Holds o cell []) : Gives o cell .boolean none
  | boolean {core : List Char} {b : Bool} (holds : Holds o cell core) (nonempty : core ≠ [])
      (means : WordMeans o (wordOf core) b) : Gives o cell .boolean (some (.boolean b))

/-- A cell is neither empty nor of the type of its column. The message about it shows what was read,
and the name of the type. -/
inductive Refuses (o : Options) (cell : String) : ColumnType → String → String → Prop where
  | number {core numeral : List Char} (holds : Holds o cell core)
      (unformats : Unformats o core numeral) (nonempty : numeral ≠ [])
      (meaningless : ∀ v, ¬NumeralMeans numeral v) :
      Refuses o cell .number (String.ofList numeral) "number"
  | boolean {core : List Char} (holds : Holds o cell core) (nonempty : core ≠ [])
      (meaningless : ∀ b, ¬WordMeans o (wordOf core) b) :
      Refuses o cell .boolean (wordOf core) "boolean"

variable {o : Options} {column : Column} {row : Nat} {l core numeral : List Char}
  {cell shown kind word : String} {v : Value} {value? : Option Value} {b : Bool}

/-! ## The text of a cell -/

theorem isPart_iff : IsPart o l core ↔
    (if o.trimCells then Text.trim Text.isBlank l else l) = core := by
  constructor
  · rintro (untrimmed | ⟨trimmed, trims⟩)
    · rw [untrimmed]
      rfl
    · rw [trimmed]
      exact trims.trim_eq
  · rintro rfl
    split
    · next trimmed => exact .core trimmed (Text.trims_iff.2 rfl)
    · next untrimmed => exact .whole (eq_false_of_ne_true untrimmed)

theorem shows_iff : Shows o cell l ↔ cellText o cell = l := by
  rw [cellText]
  constructor
  · rintro (⟨isPart, notEmpty⟩ | ⟨isPart, isEmpty⟩)
    · rw [isPart_iff.1 isPart, if_neg (by simpa using notEmpty)]
    · rw [isPart_iff.1 isPart, if_pos (by simpa using isEmpty)]
  · rintro rfl
    obtain ⟨part, isPart⟩ : ∃ part, IsPart o cell.toList part := ⟨_, isPart_iff.2 rfl⟩
    rw [isPart_iff.1 isPart]
    split
    · next isEmpty => exact .empty isPart (by simpa using isEmpty)
    · next notEmpty => exact .text isPart (by simpa using notEmpty)

theorem holds_iff : Holds o cell core ↔ Text.trim Text.isBlank (cellText o cell) = core := by
  simp only [Holds, shows_iff, exists_eq_left', Text.trims_iff]

/-! ## Numbers -/

/-- Whether a character is no separator between digits. -/
def isKept (o : Options) (x : Char) : Bool :=
  decide (o.groupingSeparator ≠ some x)

theorem isKept_iff {x : Char} : isKept o x ↔ o.groupingSeparator ≠ some x :=
  decide_eq_true_iff

/-- How a character that is left is read. -/
def pointed (o : Options) (x : Char) : Char :=
  if x = o.decimalSeparator then '.' else x

theorem numeralOf_eq (o : Options) (l : List Char) :
    numeralOf o l = ((Text.trim Text.isBlank l).filter (isKept o)).map (pointed o) := by
  have hkept : isKept o = fun x => decide (o.groupingSeparator ≠ some x) := rfl
  rw [numeralOf, hkept]
  cases o.groupingSeparator with
  | none =>
    have hall : (Text.trim Text.isBlank l).filter (fun x => decide (none ≠ some x)) =
        Text.trim Text.isBlank l := List.filter_eq_self.2 fun _ _ => rfl
    rw [hall]
    rfl
  | some grouping =>
    have hne : (fun x => x != grouping) = fun x => decide (some grouping ≠ some x) := by
      funext x
      rw [Bool.eq_iff_iff, bne_iff_ne, decide_eq_true_iff, ne_eq, ne_eq, Option.some.injEq,
        eq_comm]
    rw [← hne]
    rfl

/-- Separators are left out and replaced one character at a time. -/
theorem unformats_iff :
    Unformats o l numeral ↔ (l.filter (isKept o)).map (pointed o) = numeral := by
  constructor
  · intro h
    induction h with
    | nil => rfl
    | grouping isGrouping _ ih =>
      rw [List.filter_cons_of_neg (by simp [isKept_iff, isGrouping]), ih]
    | point noGrouping isPoint _ ih =>
      rw [List.filter_cons_of_pos (isKept_iff.2 noGrouping), List.map_cons, ih, pointed,
        if_pos isPoint.symm]
    | other noGrouping noPoint _ ih =>
      rw [List.filter_cons_of_pos (isKept_iff.2 noGrouping), List.map_cons, ih, pointed,
        if_neg (Ne.symm noPoint)]
  · rintro rfl
    induction l with
    | nil => exact .nil
    | cons x l ih =>
      by_cases hgrouping : o.groupingSeparator = some x
      · rw [List.filter_cons_of_neg (by simp [isKept_iff, hgrouping])]
        exact .grouping hgrouping ih
      · rw [List.filter_cons_of_pos (isKept_iff.2 hgrouping), List.map_cons]
        by_cases hpoint : o.decimalSeparator = x
        · rw [pointed, if_pos hpoint.symm]
          exact .point hgrouping hpoint ih
        · rw [pointed, if_neg (Ne.symm hpoint)]
          exact .other hgrouping hpoint ih

/-- What is read of a cell with a number is the numeral for it. -/
theorem Holds.numeralOf_eq (holds : Holds o cell core) (unformats : Unformats o core numeral) :
    numeralOf o (cellText o cell) = numeral := by
  rw [Table.numeralOf_eq, holds_iff.1 holds, unformats_iff.1 unformats]

theorem NumeralMeans.ne_nil (h : NumeralMeans l v) : l ≠ [] := by
  rintro rfl
  cases h with
  | integer isInteger => cases Numeral.integer?_eq_some_iff.2 isInteger
  | decimal _ isNumeral => cases Decimal.ofChars?_eq_some_iff_isSpacedNumeral.2 isNumeral

theorem number_of_means (means : NumeralMeans (numeralOf o l) v) :
    number o column row l = .ok (some v) := by
  rw [number, if_neg (by simpa using means.ne_nil)]
  generalize numeralOf o l = numeral at means
  cases means with
  | integer isInteger => rw [Numeral.int64?_eq_some_iff.2 isInteger]
  | decimal noInteger isNumeral =>
    rw [Numeral.int64?_eq_none_iff.2 noInteger,
      Decimal.ofChars?_eq_some_iff_isSpacedNumeral.2 isNumeral]

theorem number_of_meaningless (nonempty : numeralOf o l ≠ [])
    (meaningless : ∀ v, ¬NumeralMeans (numeralOf o l) v) : number o column row l =
      .error (.invalidCell (String.ofList (numeralOf o l)) "number" row column.name) := by
  rw [number, if_neg (by simpa using nonempty)]
  generalize numeralOf o l = numeral at meaningless
  have noInteger : ∀ n : Int64, ¬IsInteger numeral n.toInt :=
    fun n hn => meaningless _ (.integer hn)
  have hdecimal : Decimal.ofChars? numeral = none :=
    Option.eq_none_iff_forall_ne_some.2 fun d hd => meaningless _
      (.decimal noInteger (Decimal.ofChars?_eq_some_iff_isSpacedNumeral.1 hd))
  rw [Numeral.int64?_eq_none_iff.2 noInteger, hdecimal]

/-! ## Truth values -/

theorem wordOf_eq_empty : wordOf l = "" ↔ l = [] := by
  rw [wordOf, String.ofList_eq_empty_iff, Text.lowerCase_eq_nil]

theorem boolean_of_means (means : WordMeans o (wordOf (Text.trim Text.isBlank l)) b) :
    boolean o column row l = .ok (some (.boolean b)) := by
  rw [boolean, ← wordOf]
  generalize wordOf (Text.trim Text.isBlank l) = word at means
  cases means with
  | altTrue isWord =>
    rw [if_pos isWord]
    rfl
  | altFalse notTrue isWord =>
    rw [if_neg notTrue, if_pos isWord]
    rfl
  | isTrue notTrue notFalse isWord =>
    rw [if_neg notTrue, if_neg notFalse]
    simp only [List.mem_cons, List.not_mem_nil, or_false] at isWord
    obtain rfl | rfl | rfl | rfl := isWord <;> rfl
  | isFalse notTrue notFalse isWord =>
    rw [if_neg notTrue, if_neg notFalse]
    simp only [List.mem_cons, List.not_mem_nil, or_false] at isWord
    obtain rfl | rfl | rfl | rfl := isWord <;> rfl

theorem boolean_of_meaningless (nonempty : Text.trim Text.isBlank l ≠ [])
    (meaningless : ∀ b, ¬WordMeans o (wordOf (Text.trim Text.isBlank l)) b) :
    boolean o column row l = .error
      (.invalidCell (wordOf (Text.trim Text.isBlank l)) "boolean" row column.name) := by
  have hne : wordOf (Text.trim Text.isBlank l) ≠ "" := fun h => nonempty (wordOf_eq_empty.1 h)
  rw [boolean, ← wordOf]
  generalize wordOf (Text.trim Text.isBlank l) = word at meaningless hne
  have notTrue : o.altTrue ≠ some word := fun h => meaningless _ (.altTrue h)
  have notFalse : o.altFalse ≠ some word := fun h => meaningless _ (.altFalse notTrue h)
  have htrue : word ∉ trueWords := fun h => meaningless _ (.isTrue notTrue notFalse h)
  have hfalse : word ∉ falseWords := fun h => meaningless _ (.isFalse notTrue notFalse h)
  rw [if_neg notTrue, if_neg notFalse, if_neg (by simpa using hne), if_neg (by simpa using htrue),
    if_neg (by simpa using hfalse)]

theorem boolean_of_empty (isEmpty : Text.trim Text.isBlank l = []) (htrue : o.altTrue ≠ some "")
    (hfalse : o.altFalse ≠ some "") : boolean o column row l = .ok none := by
  rw [boolean, ← wordOf, wordOf_eq_empty.2 isEmpty, if_neg htrue, if_neg hfalse]
  rfl

/-! ## Values of cells -/

/-- A cell gives something, or it is refused. -/
theorem gives_or_refuses (o : Options) (cell : String) (type : ColumnType) :
    (∃ value?, Gives o cell type value?) ∨ ∃ shown kind, Refuses o cell type shown kind := by
  have holds : Holds o cell (Text.trim Text.isBlank (cellText o cell)) := holds_iff.2 rfl
  generalize Text.trim Text.isBlank (cellText o cell) = core at holds
  cases type with
  | string => exact .inl ⟨_, .string (shows_iff.2 rfl)⟩
  | number =>
    have unformats : Unformats o core ((core.filter (isKept o)).map (pointed o)) :=
      unformats_iff.2 rfl
    generalize (core.filter (isKept o)).map (pointed o) = numeral at unformats
    by_cases hempty : numeral = []
    · exact .inl ⟨_, .noNumber holds (hempty ▸ unformats)⟩
    by_cases hmeans : ∃ v, NumeralMeans numeral v
    · obtain ⟨v, means⟩ := hmeans
      exact .inl ⟨_, .number holds unformats means⟩
    · exact .inr ⟨_, _, .number holds unformats hempty (not_exists.1 hmeans)⟩
  | boolean =>
    by_cases hempty : core = []
    · exact .inl ⟨_, .noBoolean (hempty ▸ holds)⟩
    by_cases hmeans : ∃ b, WordMeans o (wordOf core) b
    · obtain ⟨b, means⟩ := hmeans
      exact .inl ⟨_, .boolean holds hempty means⟩
    · exact .inr ⟨_, _, .boolean holds hempty (not_exists.1 hmeans)⟩

/-- No word that the options add is empty, so that empty cells mean nothing. -/
theorem cellValue_of_gives (htrue : o.altTrue ≠ some "") (hfalse : o.altFalse ≠ some "")
    (h : Gives o cell column.type value?) : cellValue o column row cell = .ok value? := by
  rw [cellValue]
  generalize column.type = type at h
  cases h with
  | string shows => rw [shows_iff.1 shows]
  | noNumber holds unformats => simp [number, holds.numeralOf_eq unformats]
  | number holds unformats means =>
    rw [← holds.numeralOf_eq unformats] at means
    exact number_of_means means
  | noBoolean holds => exact boolean_of_empty (holds_iff.1 holds) htrue hfalse
  | boolean holds nonempty means =>
    rw [← holds_iff.1 holds] at means
    exact boolean_of_means means

theorem cellValue_of_refuses (h : Refuses o cell column.type shown kind) :
    cellValue o column row cell = .error (.invalidCell shown kind row column.name) := by
  rw [cellValue]
  generalize column.type = type at h
  cases h with
  | number holds unformats nonempty meaningless =>
    rw [← holds.numeralOf_eq unformats] at nonempty meaningless ⊢
    exact number_of_meaningless nonempty meaningless
  | boolean holds nonempty meaningless =>
    rw [← holds_iff.1 holds] at nonempty meaningless ⊢
    exact boolean_of_meaningless nonempty meaningless

end Table
end TextualData
