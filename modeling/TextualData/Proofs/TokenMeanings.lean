import Mathlib
import TextualData.Proofs.Numerals
import TextualData.Proofs.ReadTokens

/-!
# What tokens mean

A token is a truth value, an integer if it is an integer numeral that fits in 64 bits, a decimal if
it is another numeral with a scale that fits in 64 bits and does not begin with its point, and
otherwise the string itself (`Token.Means`). Evaluation reads tokens so, except that a plus sign in
front of a numeral with a sign of its own is dropped (`Token.HasSecondSign`).
-/

namespace TextualData
namespace Token

open Numeral Decimal Evaluation

/-- The token begins with a digit or a sign. -/
def BeginsNumeral (l : List Char) : Prop :=
  ∃ x ∈ l.head?, x.isDigit ∨ x = '+' ∨ x = '-'

/-- What a token means by its grammar. -/
inductive Means : List Char → Value → Prop where
  | isTrue : Means ['t', 'r', 'u', 'e'] (.boolean true)
  | isFalse : Means ['f', 'a', 'l', 's', 'e'] (.boolean false)
  | integer {l : List Char} {n : Int64} (isInteger : IsInteger l n.toInt) : Means l (.integer n)
  | decimal {l : List Char} {d : Decimal} (begins : BeginsNumeral l)
      (isNumeral : IsNumeral l d.unscaled d.scale.toInt)
      (noInteger : ∀ n : Int64, ¬IsInteger l n.toInt) : Means l (.decimal d)
  | string {l : List Char} (notTrue : l ≠ ['t', 'r', 'u', 'e'])
      (notFalse : l ≠ ['f', 'a', 'l', 's', 'e']) (noInteger : ∀ n : Int64, ¬IsInteger l n.toInt)
      (noDecimal : BeginsNumeral l → ∀ d : Decimal, ¬IsNumeral l d.unscaled d.scale.toInt) :
      Means l (.string (String.ofList l))

/-- The characters begin with a sign. -/
def IsSigned (l : List Char) : Prop :=
  l.head? = some '+' ∨ l.head? = some '-'

/-- A plus sign and a numeral with a sign of its own, in front or after a point in front. -/
inductive HasSecondSign : List Char → Prop where
  | front {l : List Char} {d : Decimal} (signed : IsSigned l)
      (isNumeral : IsNumeral l d.unscaled d.scale.toInt) : HasSecondSign ('+' :: l)
  | afterPoint {l : List Char} {d : Decimal}
      (isPointFirst : IsPointFirst l d.unscaled d.scale.toInt) : HasSecondSign ('+' :: l)

variable {l : List Char} {v : Value} {n u k : Int} {d : Decimal}

/-- Every token means something. -/
theorem exists_means (l : List Char) : ∃ v, Means l v := by
  by_cases htrue : l = ['t', 'r', 'u', 'e']
  · exact ⟨_, htrue ▸ Means.isTrue⟩
  by_cases hfalse : l = ['f', 'a', 'l', 's', 'e']
  · exact ⟨_, hfalse ▸ Means.isFalse⟩
  by_cases hinteger : ∃ n : Int64, IsInteger l n.toInt
  · obtain ⟨n, h⟩ := hinteger
    exact ⟨_, .integer h⟩
  rw [not_exists] at hinteger
  by_cases hdecimal : BeginsNumeral l ∧ ∃ d : Decimal, IsNumeral l d.unscaled d.scale.toInt
  · obtain ⟨begins, d, h⟩ := hdecimal
    exact ⟨_, .decimal begins h hinteger⟩
  · exact ⟨_, .string htrue hfalse hinteger fun begins d h => hdecimal ⟨begins, d, h⟩⟩

theorem startsNumeral_iff : startsNumeral l ↔ BeginsNumeral l := by
  cases l <;> simp [startsNumeral, BeginsNumeral, or_assoc]

theorem beginsNumeral_of_isInteger (h : IsInteger l n) : BeginsNumeral l := by
  obtain ⟨isSign, digits, nonempty⟩ := h
  rename_i sign l factor
  obtain ⟨x, l, rfl⟩ := List.exists_cons_of_ne_nil nonempty
  have hx := digits x (by simp)
  cases isSign <;> simp [BeginsNumeral, hx]

/-- An integer numeral is a decimal numeral of scale zero. -/
theorem isNumeral_of_isInteger (h : IsInteger l n) : IsNumeral l n 0 := by
  obtain ⟨isSign, digits, nonempty⟩ := h
  have h := WithExponent.intro
    (IsSignificand.intro isSign digits .none (by simpa using nonempty)) IsExponent.none
  simpa [IsNumeral] using h

theorem not_isSigned_of_areDigits {m : List Char} (hl : AreDigits l)
    (hm : ∀ x ∈ m.head?, x ≠ '+' ∧ x ≠ '-') : ¬IsSigned (l ++ m) := by
  cases l with
  | nil =>
    rintro (h | h)
    · exact (hm _ h).1 rfl
    · exact (hm _ h).2 rfl
  | cons x l =>
    have hx := hl x (by simp)
    simp [IsSigned, ne_of_isDigit hx (y := '+') rfl, ne_of_isDigit hx (y := '-') rfl]

/-- An integer numeral after a plus sign has no sign of its own. -/
theorem isInteger_plus : IsInteger ('+' :: l) n ↔ ¬IsSigned l ∧ IsInteger l n := by
  constructor
  · generalize hm : '+' :: l = m
    rintro ⟨isSign, digits, nonempty⟩
    have hsigned := not_isSigned_of_areDigits digits (m := []) (by simp)
    rw [List.append_nil] at hsigned
    cases isSign with
    | none =>
      rw [List.nil_append] at hm
      exact absurd (.inl (by rw [← hm]; rfl)) hsigned
    | plus =>
      obtain rfl := (List.cons.inj hm).2
      exact ⟨hsigned, .intro .none digits nonempty⟩
    | minus => simp at hm
  · rintro ⟨unsigned, ⟨isSign, digits, nonempty⟩⟩
    cases isSign with
    | none => exact .intro .plus digits nonempty
    | plus => exact absurd (.inl rfl) unsigned
    | minus => exact absurd (.inr rfl) unsigned

/-- The part of a numeral after its digits begins with no sign. -/
theorem ne_sign_of_head {fraction digits exponent : List Char}
    (isFraction : IsFraction fraction digits) (isExponent : IsExponent exponent n) :
    ∀ x ∈ (fraction ++ exponent).head?, x ≠ '+' ∧ x ≠ '-' := by
  cases isFraction with
  | none =>
    cases isExponent with
    | none => simp
    | mark isMark _ => rcases isMark with rfl | rfl <;> simp
  | point _ => simp

/-- A decimal numeral after a plus sign has no sign of its own. -/
theorem isNumeral_plus : IsNumeral ('+' :: l) u k ↔ ¬IsSigned l ∧ IsNumeral l u k := by
  constructor
  · generalize hm : '+' :: l = m
    rintro ⟨⟨isSign, digits, isFraction, nonempty⟩, isExponent⟩
    have hsigned := not_isSigned_of_areDigits digits (ne_sign_of_head isFraction isExponent)
    rw [← List.append_assoc] at hsigned
    cases isSign with
    | none =>
      rw [List.nil_append] at hm
      exact absurd (.inl (by rw [← hm]; rfl)) hsigned
    | plus =>
      obtain rfl := (List.cons.inj hm).2
      exact ⟨hsigned, WithExponent.intro (.intro .none digits isFraction nonempty) isExponent⟩
    | minus => simp at hm
  · rintro ⟨unsigned, ⟨⟨isSign, digits, isFraction, nonempty⟩, isExponent⟩⟩
    cases isSign with
    | none =>
      exact WithExponent.intro (IsSignificand.intro .plus digits isFraction nonempty) isExponent
    | plus => exact absurd (.inl rfl) unsigned
    | minus => exact absurd (.inr rfl) unsigned

/-- A digit follows a point in front of a numeral. -/
theorem head?_of_isNumeral_point (h : IsNumeral ('.' :: l) u k) : ∀ x ∈ l.head?, x.isDigit := by
  generalize hm : '.' :: l = m at h
  obtain ⟨⟨isSign, whole, isFraction, nonempty⟩, -⟩ := h
  rename_i exponent _ sign front fraction digits _
  cases isSign with
  | plus | minus => simp at hm
  | none =>
    cases front with
    | cons x front =>
      obtain rfl : '.' = x := by simpa using congrArg List.head? hm
      exact absurd (whole '.' (by simp)) (by decide)
    | nil =>
      cases isFraction with
      | none => simp at nonempty
      | point areDigits =>
        rw [List.nil_append] at nonempty
        obtain ⟨x, digits, rfl⟩ := List.exists_cons_of_ne_nil nonempty
        simp only [List.nil_append, List.cons_append, List.cons.injEq, true_and] at hm
        simpa [hm] using areDigits x (by simp)

theorem isSigned_of_isPointFirst (h : IsPointFirst l u k) : ∃ m, l = '.' :: m ∧ IsSigned m := by
  obtain ⟨⟨isSign, signed, -, -⟩, -⟩ := h
  refine ⟨_, rfl, ?_⟩
  cases isSign with
  | none => exact absurd rfl signed
  | plus => exact .inl rfl
  | minus => exact .inr rfl

/-- A numeral with its sign after the point is no numeral otherwise. -/
theorem not_isNumeral_of_isPointFirst (h : IsPointFirst l u k) {u' k' : Int} :
    ¬IsNumeral l u' k' := by
  obtain ⟨m, rfl, signed⟩ := isSigned_of_isPointFirst h
  intro hnumeral
  have hdigit := head?_of_isNumeral_point hnumeral
  rcases signed with hm | hm
  · exact absurd (hdigit _ hm) (by decide)
  · exact absurd (hdigit _ hm) (by decide)

/-- What an exponent consists of. -/
theorem mem_exponent {exponent : List Char} (h : IsExponent exponent n) {x : Char}
    (hx : x ∈ exponent) : x.isDigit ∨ (x = 'e' ∨ x = 'E') ∨ x = '+' ∨ x = '-' := by
  cases h with
  | none => simp at hx
  | mark isMark isInteger =>
    rcases List.mem_cons.1 hx with rfl | hx
    · exact .inr (.inl isMark)
    · obtain ⟨isSign, digits, -⟩ := isInteger
      rcases List.mem_append.1 hx with hx | hx
      · exact .inr (.inr (isSign.mem hx))
      · exact .inl (digits x hx)

theorem exists_isDigit_significand {places : Nat}
    (h : IsSignificand l u places ∨ IsPointedSign l u places) : ∃ x ∈ l, x.isDigit := by
  rcases h with ⟨isSign, whole, isFraction, nonempty⟩ | ⟨isSign, -, digits, nonempty⟩
  · obtain ⟨x, hx⟩ := List.exists_mem_of_ne_nil _ nonempty
    rcases List.mem_append.1 hx with hx | hx
    · exact ⟨x, by simp [hx], whole x hx⟩
    · cases isFraction with
      | none => simp at hx
      | point digits => exact ⟨x, by simp [hx], digits x hx⟩
  · obtain ⟨x, hx⟩ := List.exists_mem_of_ne_nil _ nonempty
    exact ⟨x, by simp [hx], digits x hx⟩

/-- Numerals have a digit, and only characters that occur in numerals. -/
theorem isNumeralLike_of_isNumeral (h : IsNumeral l u k ∨ IsPointFirst l u k) :
    isNumeralLike l := by
  rw [IsNumeral, IsPointFirst, ← withExponent_or] at h
  obtain ⟨isSignificand, isExponent⟩ := h
  obtain ⟨x, hx, hdigit⟩ := exists_isDigit_significand isSignificand
  rw [isNumeralLike, Bool.and_eq_true, List.any_eq_true, List.all_eq_true]
  refine ⟨⟨x, List.mem_append_left _ hx, hdigit⟩, fun y hy => ?_⟩
  rcases List.mem_append.1 hy with hy | hy
  · rcases mem_significand isSignificand hy with hy | rfl | rfl | rfl <;> simp_all
  · rcases mem_exponent isExponent hy with hy | (rfl | rfl) | rfl | rfl <;> simp_all

theorem notMem_of_isNumeralLike (h : isNumeralLike l) : '_' ∉ l := by
  rw [isNumeralLike, Bool.and_eq_true, List.all_eq_true] at h
  exact fun hl => absurd (h.2 '_' hl) (by decide)

/-- The decimals that tokens denote, after a plus sign is taken off. -/
theorem decimal_iff : isNumeralLike l ∧ ofChars? l = some d ↔
    IsNumeral l d.unscaled d.scale.toInt ∨ IsPointFirst l d.unscaled d.scale.toInt :=
  ⟨fun h => (ofChars?_eq_some_iff (notMem_of_isNumeralLike h.1)).1 h.2, fun h =>
    have hlike := isNumeralLike_of_isNumeral h
    ⟨hlike, (ofChars?_eq_some_iff (notMem_of_isNumeralLike hlike)).2 h⟩⟩

/-- Unless a second sign follows, taking off a plus sign makes no other integer. -/
theorem isInteger_unsigned (h : ¬HasSecondSign l) {n : Int64} :
    IsInteger (unsigned l) n.toInt ↔ IsInteger l n.toInt := by
  unfold unsigned
  split
  · next l =>
    rw [isInteger_plus, iff_and_self]
    intro isInteger signed
    exact h (.front (d := ⟨n.toInt, 0⟩) signed (isNumeral_of_isInteger isInteger))
  · rfl

/-- Unless a second sign follows, taking off a plus sign makes no other decimal. -/
theorem isNumeral_unsigned (h : ¬HasSecondSign l) (begins : BeginsNumeral l) :
    IsNumeral (unsigned l) d.unscaled d.scale.toInt ∨
        IsPointFirst (unsigned l) d.unscaled d.scale.toInt ↔
      IsNumeral l d.unscaled d.scale.toInt := by
  unfold unsigned
  split
  · next l =>
    rw [isNumeral_plus]
    constructor
    · rintro (isNumeral | isPointFirst)
      · exact ⟨fun signed => h (.front signed isNumeral), isNumeral⟩
      · exact absurd (.afterPoint isPointFirst) h
    · exact fun hl => .inl hl.2
  · refine ⟨fun hl => hl.resolve_right fun isPointFirst => ?_, .inl⟩
    obtain ⟨m, rfl, -⟩ := isSigned_of_isPointFirst isPointFirst
    simp [BeginsNumeral] at begins

theorem classify_integer {n : Int64} (begins : BeginsNumeral l)
    (h : IsInteger (unsigned l) n.toInt) : classify l = .integer n := by
  rw [classify_of_startsNumeral (startsNumeral_iff.2 begins), int64?_eq_some_iff.2 h]

theorem classify_decimal (begins : BeginsNumeral l)
    (noInteger : ∀ n : Int64, ¬IsInteger (unsigned l) n.toInt)
    (h : IsNumeral (unsigned l) d.unscaled d.scale.toInt ∨
      IsPointFirst (unsigned l) d.unscaled d.scale.toInt) : classify l = .decimal d := by
  obtain ⟨hlike, hread⟩ := decimal_iff.2 h
  rw [classify_of_startsNumeral (startsNumeral_iff.2 begins), int64?_eq_none_iff.2 noInteger]
  simp [hlike, hread]

theorem classify_string (notTrue : l ≠ ['t', 'r', 'u', 'e'])
    (notFalse : l ≠ ['f', 'a', 'l', 's', 'e'])
    (noInteger : ∀ n : Int64, ¬IsInteger (unsigned l) n.toInt)
    (noDecimal : BeginsNumeral l → ∀ d : Decimal,
      ¬(IsNumeral (unsigned l) d.unscaled d.scale.toInt ∨
        IsPointFirst (unsigned l) d.unscaled d.scale.toInt)) :
    classify l = .string (String.ofList l) := by
  by_cases begins : BeginsNumeral l
  · rw [classify_of_startsNumeral (startsNumeral_iff.2 begins), int64?_eq_none_iff.2 noInteger]
    simp only
    split
    · next hlike =>
      have hread : ofChars? (unsigned l) = none :=
        Option.eq_none_iff_forall_ne_some.2
          fun d hd => noDecimal begins d (decimal_iff.1 ⟨hlike, hd⟩)
      rw [hread]
      rfl
    · rfl
  · rw [classify, if_neg notTrue, if_neg notFalse, number?, if_neg (by rwa [startsNumeral_iff])]
    rfl

/-- Without a second sign, a token is classified by its grammar. -/
theorem Means.classify_eq (h : Means l v) (noSecond : ¬HasSecondSign l) : classify l = v := by
  cases h with
  | isTrue | isFalse => rfl
  | integer isInteger =>
    exact classify_integer (beginsNumeral_of_isInteger isInteger)
      ((isInteger_unsigned noSecond).2 isInteger)
  | decimal begins isNumeral noInteger =>
    exact classify_decimal begins (fun n => (isInteger_unsigned noSecond).not.2 (noInteger n))
      ((isNumeral_unsigned noSecond begins).2 isNumeral)
  | string notTrue notFalse noInteger noDecimal =>
    exact classify_string notTrue notFalse
      (fun n => (isInteger_unsigned noSecond).not.2 (noInteger n))
      fun begins d => (isNumeral_unsigned noSecond begins).not.2 (noDecimal begins d)

/-- A token with a second sign is no numeral. -/
theorem HasSecondSign.means (h : HasSecondSign l) : Means l (.string (String.ofList l)) := by
  have hno : ∀ u k, ¬IsNumeral l u k := by
    intro u k
    cases h with
    | front signed _ => exact fun h => (isNumeral_plus.1 h).1 signed
    | afterPoint isPointFirst =>
      exact fun h => not_isNumeral_of_isPointFirst isPointFirst (isNumeral_plus.1 h).2
  have hplus : l.head? = some '+' := by cases h <;> rfl
  refine .string ?_ ?_ (fun n h => hno _ _ (isNumeral_of_isInteger h)) fun _ d => hno _ _
  · rintro rfl
    simp at hplus
  · rintro rfl
    simp at hplus

/-- A token with a second sign is read as a number all the same. -/
theorem HasSecondSign.classify_ne (h : HasSecondSign l) :
    classify l ≠ .string (String.ofList l) := by
  have begins : BeginsNumeral l := by
    cases h <;> simp [BeginsNumeral]
  obtain ⟨d, hd⟩ : ∃ d : Decimal, IsNumeral (unsigned l) d.unscaled d.scale.toInt ∨
      IsPointFirst (unsigned l) d.unscaled d.scale.toInt := by
    cases h with
    | front _ isNumeral => exact ⟨_, .inl isNumeral⟩
    | afterPoint isPointFirst => exact ⟨_, .inr isPointFirst⟩
  by_cases hinteger : ∃ n : Int64, IsInteger (unsigned l) n.toInt
  · obtain ⟨n, hn⟩ := hinteger
    simp [classify_integer begins hn]
  · simp [classify_decimal begins (not_exists.1 hinteger) hd]

/-- Wherever a token stands in the place of a value without parameters, evaluation gives the one
value that the token means by its grammar, exactly if the token has no second sign. -/
theorem isReadAs_iff_means_iff (h : IsName l) :
    (∀ v, IsReadAs l v ↔ Means l v) ↔ ¬HasSecondSign l := by
  simp only [isReadAs_iff h]
  constructor
  · intro hmeans second
    exact second.classify_ne ((hmeans _).2 second.means)
  · intro noSecond v
    obtain ⟨w, hw⟩ := exists_means l
    refine ⟨?_, fun hv => hv.classify_eq noSecond⟩
    rintro rfl
    rwa [hw.classify_eq noSecond]

/-- A decimal with a point and an exponent, read with its digits and its scale. -/
theorem isReadAs_of_exponent : IsName ['-', '1', '.', '5', '0', 'e', '3'] ∧
    IsReadAs ['-', '1', '.', '5', '0', 'e', '3'] (.decimal ⟨-150, -1⟩) := by
  have hname : IsName ['-', '1', '.', '5', '0', 'e', '3'] :=
    ⟨_, _, rfl, by decide, List.all_eq_true.1 (by decide)⟩
  have noSecond : ¬HasSecondSign ['-', '1', '.', '5', '0', 'e', '3'] := by rintro ⟨⟩
  have begins : BeginsNumeral ['-', '1', '.', '5', '0', 'e', '3'] := ⟨'-', rfl, by decide⟩
  have isNumeral := (isNumeral_unsigned noSecond begins (d := ⟨-150, -1⟩)).1
    (decimal_iff.1 ⟨by decide, by decide⟩)
  exact ⟨hname, ((isReadAs_iff_means_iff hname).2 noSecond _).2
    (.decimal begins isNumeral (int64?_eq_none_iff.1 (by decide)))⟩

/-- By the grammar these are strings, but the plus sign is dropped and the rest is read with its own
sign, which counts as a digit after a point. -/
theorem second_sign_is_read :
    Means ['+', '-', '5'] (.string "+-5") ∧
      (Source.evaluate ⟨"+-5", none⟩ .unresolving false ()).1 = .ok (.integer (-5)) ∧
      Means ['+', '.', '-', '5'] (.string "+.-5") ∧
      (Source.evaluate ⟨"+.-5", none⟩ .unresolving false ()).1 = .ok (.decimal ⟨-5, 2⟩) := by
  have front : IsNumeral ['-', '5'] (-5) 0 :=
    isNumeral_of_isInteger (integer?_eq_some_iff.1 (by decide))
  have afterPoint : IsPointFirst ['.', '-', '5'] (-5) 2 := by
    have hread : isNumeralLike ['.', '-', '5'] ∧ ofChars? ['.', '-', '5'] = some ⟨-5, 2⟩ := by
      decide
    refine (decimal_iff.1 hread).resolve_left fun isNumeral => ?_
    exact absurd (head?_of_isNumeral_point isNumeral '-' rfl) (by decide)
  exact ⟨HasSecondSign.means (.front (d := ⟨-5, 0⟩) (.inr rfl) front), by cbv,
    HasSecondSign.means (.afterPoint (d := ⟨-5, 2⟩) afterPoint), by cbv⟩

end Token
end TextualData
