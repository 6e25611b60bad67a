import Mathlib.Algebra.Group.Nat.Defs
import TextualData.Proofs.TableCells

/-!
# Cells with numbers

A number in a cell may have blanks around it, separators between its digits, and a point of its own
(`Table.WritesNumber`). None of this matters to its value: an integer if it has no point and fits in
64 bits, and otherwise the decimal with just these digits (`Table.NumberIs`).
-/

namespace TextualData

namespace Numeral

variable {l : List Char} {m n : Int}

theorem IsInteger.unique (h : IsInteger l m) (h' : IsInteger l n) : m = n :=
  Option.some.inj ((integer?_eq_some_iff.2 h).symm.trans (integer?_eq_some_iff.2 h'))

theorem not_isInteger_of_point (h : '.' ∈ l) : ¬IsInteger l n := by
  intro hn
  have hnone := integer?_eq_none h rfl (by decide) (by decide)
  cases (integer?_eq_some_iff.2 hn).symm.trans hnone

end Numeral

namespace Decimal

open Numeral

variable {l : List Char} {u : Int} {places : Nat} {d : Decimal}

/-- A numeral without an exponent has the integer of all its digits, and the number of those after
the point for its scale. -/
theorem isSpacedNumeral_iff (h : IsSignificand l u places) :
    IsSpacedNumeral l d.unscaled d.scale.toInt ↔ d.unscaled = u ∧ d.scale.toInt = places := by
  have hmem : ∀ x ∈ l, x.isDigit ∨ x = '.' ∨ x = '+' ∨ x = '-' :=
    fun x hx => mem_significand (.inl h) hx
  have hmark : ∀ x ∈ l, !isExponentMark x := by
    intro x hx
    rcases hmem x hx with hx | rfl | rfl | rfl
    · simp [isExponentMark, ne_of_isDigit hx (y := 'e') rfl, ne_of_isDigit hx (y := 'E') rfl]
    all_goals rfl
  have hno : '_' ∉ l := by
    intro hx
    rcases hmem _ hx with hx | hx | hx | hx <;> exact absurd hx (by decide)
  obtain ⟨isInteger, rfl⟩ := h.isInteger_significand
  have hempty : ∀ x ∈ ([] : List Char).head?, isExponentMark x := by
    intro x hx
    cases hx
  have hread := ofChars?_append (d := d) hmark hempty
  rw [List.append_nil] at hread
  rw [← ofChars?_eq_some_iff_isSpacedNumeral, hread,
    digits?_eq_integer? fun hx => hno (subset_of_significand _ hx)]
  simp only [isExponent_nil, exists_eq_left, integer?_eq_some_iff, Int.sub_zero]
  constructor
  · rintro ⟨hunscaled, hscale⟩
    exact ⟨hunscaled.unique isInteger, hscale.symm⟩
  · rintro ⟨rfl, hscale⟩
    exact ⟨isInteger, hscale.symm⟩

end Decimal

namespace Table

open Numeral (AreDigits IsInteger IsSign)
open Decimal (IsSignificand IsSpacedNumeral isSignificand_of_isInteger)

/-- Digits, each of which any number of separators may follow. -/
inductive IsGrouped (separator : Option Char) : List Char → List Char → Prop where
  | nil : IsGrouped separator [] []
  | digit {x : Char} {separators text digits : List Char} (isDigit : x.isDigit)
      (areSeparators : ∀ y ∈ separators, separator = some y)
      (more : IsGrouped separator text digits) :
      IsGrouped separator (x :: (separators ++ text)) (x :: digits)

/-- The point of the options with the digits after it, or nothing. -/
inductive IsFraction (point : Char) : List Char → Option (List Char) → Prop where
  | none : IsFraction point [] none
  | point {digits : List Char} (areDigits : AreDigits digits) (nonempty : digits ≠ []) :
      IsFraction point (point :: digits) (some digits)

/-- A number as a cell may have it, with the integer of all its digits and, if it has a point, with
the number of digits after the point. -/
inductive WritesNumber (o : Options) : List Char → Int → Option Nat → Prop where
  | intro {before sign whole digits fraction after : List Char} {digits? : Option (List Char)}
      {factor : Int} (blankBefore : ∀ x ∈ before, Text.isBlank x) (isSign : IsSign sign factor)
      (isGrouped : IsGrouped o.groupingSeparator whole digits) (nonempty : digits ≠ [])
      (isFraction : IsFraction o.decimalSeparator fraction digits?)
      (blankAfter : ∀ x ∈ after, Text.isBlank x) :
      WritesNumber o (before ++ (sign ++ whole ++ fraction) ++ after)
        (factor * Nat.ofDigitChars 10 (digits ++ digits?.getD []) 0) (digits?.map List.length)

/-- The value of a number: an integer if it has no point and fits in 64 bits, and otherwise a
decimal. -/
inductive NumberIs : Int → Option Nat → Value → Prop where
  | integer {n : Int64} : NumberIs n.toInt none (.integer n)
  | large {n : Int} (unfit : ∀ k : Int64, k.toInt ≠ n) : NumberIs n none (.decimal ⟨n, 0⟩)
  | fraction {n : Int} {places : Nat} {scale : Int64} (isScale : scale.toInt = places) :
      NumberIs n (some places) (.decimal ⟨n, scale⟩)

/-- The character is neither a digit nor a sign. -/
structure IsPlain (x : Char) : Prop where
  noDigit : x.isDigit = false
  noPlus : x ≠ '+'
  noMinus : x ≠ '-'

/-- The point and the separator between digits differ, and neither is a digit or a sign. -/
structure HasPlainSeparators (o : Options) : Prop where
  differ : o.groupingSeparator ≠ some o.decimalSeparator
  point : IsPlain o.decimalSeparator
  grouping : ∀ x ∈ o.groupingSeparator, IsPlain x

/-- An integer numeral, or a numeral with a point, with the integer of all its digits. -/
inductive IsPointed : List Char → Int → Option Nat → Prop where
  | integer {l : List Char} {n : Int} (isInteger : IsInteger l n) : IsPointed l n none
  | fraction {l : List Char} {n : Int} {places : Nat} (hasPoint : '.' ∈ l)
      (isSignificand : IsSignificand l n places) : IsPointed l n (some places)

variable {o : Options} {column : Column} {row : Nat} {cell : String} {x : Char}
  {l sign whole digits fraction : List Char} {digits? : Option (List Char)} {n factor : Int}
  {places? : Option Nat} {v : Value}

theorem isBlank_of_isDigit (h : x.isDigit) : Text.isBlank x = false :=
  Token.isBlank_of_continues (Token.continues_of_isDigit h)

theorem isBlank_of_mem_sign (h : IsSign sign factor) (hx : x ∈ sign) : Text.isBlank x = false := by
  rcases h.mem hx with rfl | rfl <;> decide

theorem IsGrouped.areDigits (h : IsGrouped o.groupingSeparator whole digits) :
    AreDigits digits := by
  induction h with
  | nil => nofun
  | digit isDigit _ _ ih => exact List.forall_mem_cons.2 ⟨isDigit, ih⟩

theorem IsGrouped.mem (h : IsGrouped o.groupingSeparator whole digits) (hx : x ∈ whole) :
    x.isDigit ∨ o.groupingSeparator = some x := by
  induction h with
  | nil => cases hx
  | digit isDigit areSeparators _ ih =>
    rcases List.mem_cons.1 hx with rfl | hx
    · exact .inl isDigit
    · rcases List.mem_append.1 hx with hx | hx
      · exact .inr (areSeparators _ hx)
      · exact ih hx

theorem isKept_of_isDigit (h : HasPlainSeparators o) (hx : x.isDigit) : isKept o x := by
  refine decide_eq_true fun hgrouping => ?_
  rw [(h.grouping x hgrouping).noDigit] at hx
  cases hx

theorem isKept_of_mem_sign (h : HasPlainSeparators o) (isSign : IsSign sign factor)
    (hx : x ∈ sign) : isKept o x := by
  refine decide_eq_true fun hgrouping => ?_
  rcases isSign.mem hx with rfl | rfl
  · exact (h.grouping _ hgrouping).noPlus rfl
  · exact (h.grouping _ hgrouping).noMinus rfl

theorem isKept_of_mem_fraction (h : HasPlainSeparators o)
    (isFraction : IsFraction o.decimalSeparator fraction digits?) (hx : x ∈ fraction) :
    isKept o x := by
  cases isFraction with
  | none => cases hx
  | point areDigits _ =>
    rcases List.mem_cons.1 hx with rfl | hx
    · exact decide_eq_true h.differ
    · exact isKept_of_isDigit h (areDigits x hx)

/-- Without the separators between them, the digits are left. -/
theorem IsGrouped.filter_isKept (h : IsGrouped o.groupingSeparator whole digits)
    (separators : HasPlainSeparators o) : whole.filter (isKept o) = digits := by
  induction h with
  | nil => rfl
  | @digit x between text digits isDigit areSeparators _ ih =>
    have hbetween : between.filter (isKept o) = [] :=
      List.filter_eq_nil_iff.2 fun y hy => by simp [isKept, areSeparators y hy]
    rw [List.filter_cons_of_pos (isKept_of_isDigit separators isDigit), List.filter_append,
      hbetween, ih, List.nil_append]

theorem map_pointed (h : ∀ x ∈ l, x ≠ o.decimalSeparator) : l.map (pointed o) = l :=
  (List.map_congr_left fun x hx => if_neg (h x hx)).trans (List.map_id l)

theorem AreDigits.map_pointed (h : AreDigits l) (separators : HasPlainSeparators o) :
    l.map (pointed o) = l :=
  Table.map_pointed fun _ hx => Numeral.ne_of_isDigit (h _ hx) separators.point.noDigit

theorem map_pointed_sign (isSign : IsSign sign factor) (separators : HasPlainSeparators o) :
    sign.map (pointed o) = sign := by
  refine map_pointed fun x hx => ?_
  rcases isSign.mem hx with rfl | rfl
  · exact separators.point.noPlus.symm
  · exact separators.point.noMinus.symm

/-- The characters at the end of a number that are trimmed off are separators between digits. -/
theorem isKept_of_mem_rtakeWhile (isSign : IsSign sign factor)
    (isGrouped : IsGrouped o.groupingSeparator whole digits)
    (isFraction : IsFraction o.decimalSeparator fraction digits?)
    (hx : x ∈ (sign ++ whole ++ fraction).rtakeWhile Text.isBlank) : isKept o x = false := by
  have hblank : Text.isBlank x := List.mem_rtakeWhile_imp hx
  cases isFraction with
  | none =>
    have hmem : x ∈ sign ++ whole ++ [] :=
      (List.rtakeWhile_suffix Text.isBlank _).sublist.subset hx
    rw [List.append_nil] at hmem
    rcases List.mem_append.1 hmem with hx | hx
    · rw [isBlank_of_mem_sign isSign hx] at hblank
      cases hblank
    · rcases isGrouped.mem hx with hdigit | hgrouping
      · rw [isBlank_of_isDigit hdigit] at hblank
        cases hblank
      · exact decide_eq_false (not_not.2 hgrouping)
  | @point fraction areDigits nonempty =>
    obtain ⟨front, y, rfl⟩ := (List.eq_nil_or_concat' fraction).resolve_left nonempty
    have hy : ¬Text.isBlank y := by simp [isBlank_of_isDigit (areDigits y (by simp))]
    rw [← List.cons_append, ← List.append_assoc, List.rtakeWhile_concat_neg _ _ _ hy] at hx
    cases hx

theorem IsGrouped.head? (h : IsGrouped o.groupingSeparator whole digits) (nonempty : digits ≠ []) :
    ∃ y ∈ whole.head?, y.isDigit := by
  cases h with
  | nil => exact absurd rfl nonempty
  | digit isDigit _ _ => exact ⟨_, rfl, isDigit⟩

/-- A number begins with its sign or with a digit. -/
theorem isBlank_head? (isSign : IsSign sign factor)
    (isGrouped : IsGrouped o.groupingSeparator whole digits) (nonempty : digits ≠ []) :
    ∀ x ∈ (sign ++ whole ++ fraction).head?, Text.isBlank x = false := by
  intro x hx
  obtain ⟨y, hy, isDigit⟩ := isGrouped.head? nonempty
  cases isSign with
  | none =>
    rw [List.nil_append, List.head?_append, Option.mem_def.1 hy] at hx
    obtain rfl := Option.some.inj hx
    exact isBlank_of_isDigit isDigit
  | plus | minus =>
    obtain rfl := Option.some.inj hx
    decide

/-- What is read of a number is a numeral with the same digits and a point in the same place. -/
theorem WritesNumber.isPointed (h : WritesNumber o l n places?)
    (separators : HasPlainSeparators o) : IsPointed (numeralOf o l) n places? := by
  obtain ⟨blankBefore, isSign, isGrouped, nonempty, isFraction, blankAfter⟩ := h
  rename_i before sign whole digits fraction after digits? factor
  have hsign : sign.filter (isKept o) = sign :=
    List.filter_eq_self.2 fun _ hx => isKept_of_mem_sign separators isSign hx
  have hfraction : fraction.filter (isKept o) = fraction :=
    List.filter_eq_self.2 fun _ hx => isKept_of_mem_fraction separators isFraction hx
  have hnumeral : numeralOf o (before ++ (sign ++ whole ++ fraction) ++ after) =
      sign ++ digits ++ fraction.map (pointed o) := by
    rw [numeralOf_eq, Text.trim_enclosed blankBefore (isBlank_head? isSign isGrouped nonempty)
      blankAfter, Text.filter_rdropWhile fun _ hx =>
        isKept_of_mem_rtakeWhile isSign isGrouped isFraction hx, List.filter_append,
      List.filter_append, hsign, isGrouped.filter_isKept separators, hfraction, List.map_append,
      List.map_append, map_pointed_sign isSign separators,
      AreDigits.map_pointed isGrouped.areDigits separators]
  rw [hnumeral]
  cases isFraction with
  | none =>
    rw [List.map_nil, List.append_nil, Option.getD_none, List.append_nil]
    exact .integer (.intro isSign isGrouped.areDigits nonempty)
  | point areDigits _ =>
    have hpoint : pointed o o.decimalSeparator = '.' := if_pos rfl
    rw [List.map_cons, hpoint, AreDigits.map_pointed areDigits separators]
    exact .fraction (by simp)
      (.intro isSign isGrouped.areDigits (.point areDigits) (by simp [nonempty]))

/-- The value of a numeral follows from its digits and its point. -/
theorem IsPointed.numeralMeans_iff (h : IsPointed l n places?) :
    NumeralMeans l v ↔ NumberIs n places? v := by
  cases h with
  | integer isInteger =>
    have hdecimal : ∀ d : Decimal, IsSpacedNumeral l d.unscaled d.scale.toInt ↔
        d.unscaled = n ∧ d.scale.toInt = (0 : Nat) :=
      fun _ => Decimal.isSpacedNumeral_iff (isSignificand_of_isInteger isInteger)
    constructor
    · intro hmeans
      cases hmeans with
      | integer hn =>
        obtain rfl := isInteger.unique hn
        exact .integer
      | @decimal d noInteger isNumeral =>
        obtain ⟨unscaled, scale⟩ := d
        obtain ⟨rfl, hscale⟩ := (hdecimal _).1 isNumeral
        obtain rfl : scale = 0 := Int64.toInt.inj hscale
        exact .large fun k hk => noInteger k (hk ▸ isInteger)
    · intro his
      cases his with
      | integer => exact .integer isInteger
      | large unfit =>
        exact .decimal (fun k hk => unfit k (hk.unique isInteger)) ((hdecimal ⟨n, 0⟩).2 ⟨rfl, rfl⟩)
  | @fraction places hasPoint isSignificand =>
    have hdecimal : ∀ d : Decimal, IsSpacedNumeral l d.unscaled d.scale.toInt ↔
        d.unscaled = n ∧ d.scale.toInt = places :=
      fun _ => Decimal.isSpacedNumeral_iff isSignificand
    have noInteger : ∀ k : Int64, ¬IsInteger l k.toInt :=
      fun k => Numeral.not_isInteger_of_point hasPoint
    constructor
    · intro hmeans
      cases hmeans with
      | integer hn => exact absurd hn (noInteger _)
      | decimal _ isNumeral =>
        obtain ⟨rfl, hscale⟩ := (hdecimal _).1 isNumeral
        exact .fraction hscale
    · intro his
      cases his with
      | @fraction _ _ scale isScale =>
        exact .decimal noInteger ((hdecimal ⟨n, scale⟩).2 ⟨rfl, isScale⟩)

theorem IsPointed.ne_nil (h : IsPointed l n places?) : l ≠ [] := by
  rintro rfl
  cases h with
  | integer isInteger => cases Numeral.integer?_eq_some_iff.2 isInteger
  | fraction hasPoint _ => cases hasPoint

theorem number_eq_ok_iff (nonempty : numeralOf o l ≠ []) :
    number o column row l = .ok (some v) ↔ NumeralMeans (numeralOf o l) v := by
  constructor
  · intro h
    by_cases hmeans : ∃ w, NumeralMeans (numeralOf o l) w
    · obtain ⟨w, hw⟩ := hmeans
      have hnumber := (number_of_means hw).symm.trans h
      obtain rfl : w = v := Option.some.inj (Except.ok.inj hnumber)
      exact hw
    · cases h.symm.trans (number_of_meaningless nonempty (not_exists.1 hmeans))
  · exact number_of_means

/-- A cell that does not count as empty is read as its number whether it is trimmed or not. -/
theorem numeralOf_cellText (notEmpty : cell ∉ o.emptyValues)
    (trimmedNotEmpty : Text.trimmed Text.isBlank cell ∉ o.emptyValues) :
    numeralOf o (cellText o cell) = numeralOf o cell.toList := by
  unfold cellText
  cases o.trimCells with
  | false =>
    have hcontains : ¬o.emptyValues.contains (String.ofList cell.toList) := by simpa using notEmpty
    exact congrArg (numeralOf o) (if_neg hcontains)
  | true =>
    have hcontains : ¬o.emptyValues.contains
        (String.ofList (Text.trim Text.isBlank cell.toList)) := by
      simpa [Text.trimmed] using trimmedNotEmpty
    refine (congrArg (numeralOf o) (if_neg hcontains)).trans ?_
    rw [if_pos rfl, numeralOf_eq, Text.trim_trim, ← numeralOf_eq]

theorem WritesNumber.places_le (h : WritesNumber o l n places?) :
    ∀ places ∈ places?, places ≤ l.length := by
  obtain ⟨-, -, -, -, isFraction, -⟩ := h
  cases isFraction with
  | none => nofun
  | point areDigits _ =>
    rintro places ⟨⟩
    simp only [List.length_append, List.length_cons]
    omega

/-- A number has a value if the number of its digits after the point fits in a scale. -/
theorem exists_numberIs (n : Int) (h : ∀ places ∈ places?, places < 2 ^ 63) :
    ∃ v, NumberIs n places? v := by
  cases places? with
  | none =>
    by_cases hfit : ∃ k : Int64, k.toInt = n
    · obtain ⟨k, rfl⟩ := hfit
      exact ⟨_, .integer⟩
    · exact ⟨_, .large (not_exists.1 hfit)⟩
  | some places =>
    have hplaces := h places rfl
    have hscale : (Int64.ofInt places).toInt = places :=
      Int64.toInt_ofInt_of_le (by omega) (by omega)
    exact ⟨_, .fraction hscale⟩

/-- A number in a cell has the value that it has without its formatting, and there is such a value
if the cell is no longer than a text can be. -/
theorem cellValue_of_writesNumber (separators : HasPlainSeparators o)
    (isNumber : column.type = .number) (notEmpty : cell ∉ o.emptyValues)
    (trimmedNotEmpty : Text.trimmed Text.isBlank cell ∉ o.emptyValues)
    (writes : WritesNumber o cell.toList n places?) :
    (∀ v, cellValue o column row cell = .ok (some v) ↔ NumberIs n places? v) ∧
      (cell.length < 2 ^ 63 → ∃ v, cellValue o column row cell = .ok (some v)) := by
  have hpointed := writes.isPointed separators
  rw [← numeralOf_cellText notEmpty trimmedNotEmpty] at hpointed
  have hvalue : ∀ v, cellValue o column row cell = .ok (some v) ↔ NumberIs n places? v := by
    intro v
    rw [cellValue, isNumber]
    exact (number_eq_ok_iff hpointed.ne_nil).trans hpointed.numeralMeans_iff
  refine ⟨hvalue, fun hsize => ?_⟩
  have hplaces : ∀ places ∈ places?, places < 2 ^ 63 := fun places h =>
    Nat.lt_of_le_of_lt (writes.places_le places h) (String.length_toList ▸ hsize)
  obtain ⟨v, hv⟩ := exists_numberIs n hplaces
  exact ⟨v, (hvalue v).2 hv⟩

/-- Numbers with spaces between their digits, and with a comma for the point. -/
def spacedOptions : Options :=
  { groupingSeparator := some ' ', decimalSeparator := ',', emptyValues := ["", "-"] }

/-- The space between digits is a blank too, and may stand before the point. -/
theorem cellValue_of_spaced :
    HasPlainSeparators spacedOptions ∧ "-" ∈ spacedOptions.emptyValues ∧
      WritesNumber spacedOptions "\t-1 234 ,50 ".toList (-123450) (some 2) ∧
      cellValue spacedOptions ⟨"price", .number⟩ 2 "\t-1 234 ,50 " =
        .ok (some (.decimal ⟨-123450, 2⟩)) := by
  have hplain : HasPlainSeparators spacedOptions :=
    ⟨by decide, ⟨by decide, by decide, by decide⟩, by
      rintro x ⟨⟩
      exact ⟨by decide, by decide, by decide⟩⟩
  have hgrouped : IsGrouped (some ' ') ['1', ' ', '2', '3', '4', ' '] ['1', '2', '3', '4'] :=
    @IsGrouped.digit _ '1' [' '] _ _ rfl (by simp) <| @IsGrouped.digit _ '2' [] _ _ rfl nofun <|
      @IsGrouped.digit _ '3' [] _ _ rfl nofun <| @IsGrouped.digit _ '4' [' '] _ _ rfl (by simp) .nil
  have hfraction : IsFraction ',' [',', '5', '0'] (some ['5', '0']) :=
    .point (by simp [Numeral.AreDigits]) (by simp)
  have hwrites : WritesNumber spacedOptions "\t-1 234 ,50 ".toList (-123450) (some 2) :=
    @WritesNumber.intro spacedOptions ['\t'] ['-'] _ _ _ [' '] _ _
      (List.forall_mem_singleton.2 rfl) .minus hgrouped (by simp) hfraction
      (List.forall_mem_singleton.2 rfl)
  exact ⟨hplain, by decide, hwrites,
    ((cellValue_of_writesNumber hplain rfl (by decide) (by decide) hwrites).1 _).2 (.fraction rfl)⟩

end Table
end TextualData
