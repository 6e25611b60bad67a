import Mathlib.Data.List.TakeWhile
import TextualData.Proofs.NumeralText

/-!
# The grammar of numerals

An integer numeral is an optional sign and one or more digits (`Numeral.IsInteger`). A decimal
numeral may have a point among its digits and an exponent after them (`Decimal.IsNumeral`). The
readers of numbers accept exactly these, with the number that the digits denote, except that the
reader of decimals also takes a sign directly after a point in front (`Decimal.IsPointFirst`), and
underscores behind the first digit (`Decimal.IsSpacedNumeral`).
-/

namespace TextualData
namespace Numeral

/-- An optional sign, with the factor it stands for. -/
inductive IsSign : List Char → Int → Prop where
  | none : IsSign [] 1
  | plus : IsSign ['+'] 1
  | minus : IsSign ['-'] (-1)

theorem IsSign.eq_nil_of_append {l m : List Char} {factor : Int} (h : IsSign (l ++ m) factor)
    (hm : m ≠ []) : l = [] := by
  generalize hlm : l ++ m = sign at h
  cases h with
  | none => exact (List.append_eq_nil_iff.1 hlm).1
  | plus | minus =>
    have h := List.append_eq_singleton_iff.1 hlm
    simp only [hm, and_false, or_false] at h
    exact h.1

theorem IsSign.mem {sign : List Char} {factor : Int} {x : Char} (h : IsSign sign factor)
    (hx : x ∈ sign) : x = '+' ∨ x = '-' := by
  cases h <;> simp_all

theorem IsSign.notMem {sign : List Char} {factor : Int} {y : Char} (h : IsSign sign factor)
    (hplus : y ≠ '+') (hminus : y ≠ '-') : y ∉ sign :=
  fun hy => (h.mem hy).elim hplus hminus

/-- The characters are digits. -/
def AreDigits (l : List Char) : Prop :=
  ∀ x ∈ l, x.isDigit

/-- An integer numeral, with the integer it denotes. -/
inductive IsInteger : List Char → Int → Prop where
  | intro {sign digits : List Char} {factor : Int} (isSign : IsSign sign factor)
      (areDigits : AreDigits digits) (nonempty : digits ≠ []) :
      IsInteger (sign ++ digits) (factor * Nat.ofDigitChars 10 digits 0)

variable {l m : List Char} {n : Int}

theorem areDigits_append : AreDigits (l ++ m) ↔ AreDigits l ∧ AreDigits m := by
  simp [AreDigits, or_imp, forall_and]

theorem AreDigits.notMem {y : Char} (h : AreDigits l) (hy : y.isDigit = false) : y ∉ l :=
  fun hl => ne_of_isDigit (h y hl) hy rfl

theorem natural?_eq_some_iff {n : Nat} :
    natural? l = some n ↔ AreDigits l ∧ l ≠ [] ∧ Nat.ofDigitChars 10 l 0 = n := by
  constructor
  · intro h
    have hne : l ≠ [] := by
      rintro rfl
      simp [natural?] at h
    have hdigits : AreDigits l := by
      intro x hx
      by_contra hno
      simp [natural?_eq_none hx (Bool.not_eq_true _ ▸ hno)] at h
    rw [natural?_of_digits hne hdigits] at h
    exact ⟨hdigits, hne, Option.some.inj h⟩
  · rintro ⟨hdigits, hne, rfl⟩
    exact natural?_of_digits hne hdigits

/-- The reader of integers accepts exactly the integer numerals. -/
theorem integer?_eq_some_iff : integer? l = some n ↔ IsInteger l n := by
  constructor
  · have hnatural : ∀ {m : List Char} {sign : List Char} {factor : Int}, IsSign sign factor →
        (∃ k, natural? m = some k ∧ factor * k = n) → IsInteger (sign ++ m) n := by
      intro m sign factor isSign h
      obtain ⟨k, hk, rfl⟩ := h
      obtain ⟨hdigits, hne, rfl⟩ := natural?_eq_some_iff.1 hk
      exact .intro isSign hdigits hne
    intro h
    unfold integer? at h
    split at h
    · exact hnatural .minus (by simpa [Option.bind_eq_some_iff] using h)
    · exact hnatural .plus (by simpa [Option.bind_eq_some_iff] using h)
    · exact hnatural .none (by simpa [Option.bind_eq_some_iff] using h)
  · rintro ⟨isSign, hdigits, hne⟩
    cases isSign with
    | none => simpa using integer?_of_digits hne hdigits
    | plus => simp [integer?, natural?_of_digits hne hdigits]
    | minus => simp [integer?, natural?_of_digits hne hdigits]

theorem int64?_eq_some_iff {k : Int64} : int64? l = some k ↔ IsInteger l k.toInt := by
  simp only [int64?, Option.bind_eq_bind, Option.bind_eq_some_iff, fit64?_eq_some_iff,
    integer?_eq_some_iff]
  constructor
  · rintro ⟨m, h, rfl⟩
    exact h
  · intro h
    exact ⟨_, h, rfl⟩

theorem int64?_eq_none_iff : int64? l = none ↔ ∀ k : Int64, ¬IsInteger l k.toInt := by
  simp [Option.eq_none_iff_forall_ne_some, int64?_eq_some_iff]

end Numeral

namespace Decimal

open Numeral

/-- The digits after the point of a numeral, or no point at all. -/
inductive IsFraction : List Char → List Char → Prop where
  | none : IsFraction [] []
  | point {digits : List Char} (areDigits : AreDigits digits) : IsFraction ('.' :: digits) digits

/-- An optional exponent. -/
inductive IsExponent : List Char → Int → Prop where
  | none : IsExponent [] 0
  | mark {x : Char} {l : List Char} {n : Int} (isMark : x = 'e' ∨ x = 'E')
      (isInteger : IsInteger l n) : IsExponent (x :: l) n

/-- An optional sign and digits with at most one point, with the integer of all the digits and the
number of those after the point. -/
inductive IsSignificand : List Char → Int → Nat → Prop where
  | intro {sign whole fraction digits : List Char} {factor : Int} (isSign : IsSign sign factor)
      (areDigits : AreDigits whole) (isFraction : IsFraction fraction digits)
      (nonempty : whole ++ digits ≠ []) :
      IsSignificand (sign ++ whole ++ fraction) (factor * Nat.ofDigitChars 10 (whole ++ digits) 0)
        digits.length

/-- A point with a sign and digits after it. The sign counts as a digit after the point. -/
inductive IsPointedSign : List Char → Int → Nat → Prop where
  | intro {sign digits : List Char} {factor : Int} (isSign : IsSign sign factor)
      (signed : sign ≠ []) (areDigits : AreDigits digits) (nonempty : digits ≠ []) :
      IsPointedSign ('.' :: (sign ++ digits)) (factor * Nat.ofDigitChars 10 digits 0)
        (sign ++ digits).length

/-- A significand with an optional exponent, with the integer of its digits and with its scale. -/
inductive WithExponent (significand : List Char → Int → Nat → Prop) :
    List Char → Int → Int → Prop where
  | intro {l exponent : List Char} {unscaled n : Int} {places : Nat}
      (isSignificand : significand l unscaled places) (isExponent : IsExponent exponent n) :
      WithExponent significand (l ++ exponent) unscaled (places - n)

/-- A decimal numeral, with the integer of all its digits and with its scale. -/
def IsNumeral : List Char → Int → Int → Prop :=
  WithExponent IsSignificand

/-- A numeral that begins with a point and has its sign after it. -/
def IsPointFirst : List Char → Int → Int → Prop :=
  WithExponent IsPointedSign

/-- A significand with underscores anywhere behind its first digit. They do not count. -/
inductive IsSpacedSignificand : List Char → Int → Nat → Prop where
  | intro {front rest : List Char} {x : Char} {unscaled : Int} {places : Nat}
      (noUnderscore : '_' ∉ front) (isDigit : x.isDigit)
      (isSignificand : IsSignificand (front ++ x :: withoutUnderscores rest) unscaled places ∨
        IsPointedSign (front ++ x :: withoutUnderscores rest) unscaled places) :
      IsSpacedSignificand (front ++ x :: rest) unscaled places

/-- A numeral, or one that begins with a point, with underscores anywhere between the first digit
and the exponent. -/
def IsSpacedNumeral : List Char → Int → Int → Prop :=
  WithExponent IsSpacedSignificand

variable {l exponent : List Char} {n u : Int} {places : Nat} {d : Decimal}

/-- Without underscores the digits of a decimal are read like an integer. -/
theorem digits?_eq_integer? (h : '_' ∉ l) : digits? l = integer? l := by
  unfold digits? integer?
  split
  · simp [body?_eq_natural? fun hm => h (List.mem_cons_of_mem _ hm), Option.map_eq_bind]
  · simp [body?_eq_natural? fun hm => h (List.mem_cons_of_mem _ hm)]
  · simp [body?_eq_natural? h]

theorem isExponentMark_iff {x : Char} : isExponentMark x ↔ x = 'e' ∨ x = 'E' := by
  simp [isExponentMark]

theorem IsExponent.isExponentMark_head? (h : IsExponent exponent n) :
    ∀ x ∈ exponent.head?, isExponentMark x := by
  cases h with
  | none => simp
  | mark isMark _ => simpa [isExponentMark_iff] using isMark

@[simp] theorem isExponent_nil : IsExponent [] n ↔ n = 0 := by
  constructor
  · rintro ⟨⟩
    rfl
  · rintro rfl
    exact .none

theorem isExponent_cons {x : Char} {e : List Char} (hx : isExponentMark x) :
    IsExponent (x :: e) n ↔ integer? e = some n := by
  constructor
  · rintro (_ | ⟨_, isInteger⟩)
    exact integer?_eq_some_iff.2 isInteger
  · intro h
    exact .mark (isExponentMark_iff.1 hx) (integer?_eq_some_iff.1 h)

/-- A numeral is read in two parts: before its exponent, and from the mark of the exponent on. -/
theorem ofChars?_append (hl : ∀ x ∈ l, !isExponentMark x)
    (hhead : ∀ x ∈ exponent.head?, isExponentMark x) : ofChars? (l ++ exponent) = some d ↔
      ∃ n, IsExponent exponent n ∧ digits? (significand l).1 = some d.unscaled ∧
        ((significand l).2 - n : Int) = d.scale.toInt := by
  obtain ⟨htake, hdrop⟩ := takeWhile_dropWhile_append hl (m := exponent) (by simpa using hhead)
  have hparts : ∀ n : Int, (do
      let unscaled ← digits? (significand l).1
      let scale ← fit64? ((significand l).2 - n)
      return (⟨unscaled, scale⟩ : Decimal)) = some d ↔
        digits? (significand l).1 = some d.unscaled ∧
          ((significand l).2 - n : Int) = d.scale.toInt := by
    intro n
    simp only [Option.bind_eq_bind, Option.bind_eq_some_iff, fit64?_eq_some_iff]
    constructor
    · rintro ⟨u, hu, k, hk, ⟨⟩⟩
      exact ⟨hu, hk.symm⟩
    · rintro ⟨hu, hk⟩
      exact ⟨_, hu, _, hk.symm, rfl⟩
  rw [ofChars?, htake, hdrop]
  cases exponent with
  | nil => simpa using hparts 0
  | cons x e =>
    simp only [isExponent_cons (hhead x rfl)]
    exact Option.bind_eq_some_iff.trans
      (exists_congr fun n => and_congr_right fun _ => hparts n)

/-- Without a point, a significand is an integer numeral. -/
theorem isSignificand_of_isInteger (h : IsInteger l u) : IsSignificand l u 0 := by
  obtain ⟨isSign, areDigits, nonempty⟩ := h
  have hsignificand := IsSignificand.intro isSign areDigits .none (by simpa using nonempty)
  simpa using hsignificand

/-- A point anywhere in an integer numeral stands among its digits or before its sign. -/
theorem isSignificand_or_isPointedSign {whole fraction : List Char}
    (h : IsInteger (whole ++ fraction) u) :
    IsSignificand (whole ++ '.' :: fraction) u fraction.length ∨
      IsPointedSign (whole ++ '.' :: fraction) u fraction.length := by
  generalize hm : whole ++ fraction = m at h
  obtain ⟨isSign, hdigits, nonempty⟩ := h
  rename_i sign digits factor
  rcases List.append_eq_append_iff.1 hm with ⟨front, rfl, rfl⟩ | ⟨front, rfl, rfl⟩
  · by_cases hfront : front = []
    · subst hfront
      rw [List.append_nil] at isSign
      have hnone : AreDigits [] := by simp [AreDigits]
      have h := IsSignificand.intro isSign hnone (.point hdigits) (by simpa using nonempty)
      simp only [List.append_nil, List.nil_append] at h
      exact .inl h
    · obtain rfl := isSign.eq_nil_of_append hfront
      exact .inr (.intro isSign hfront hdigits nonempty)
  · rw [areDigits_append] at hdigits
    exact .inl (.intro isSign hdigits.1 (.point hdigits.2) nonempty)

theorem IsSignificand.isInteger_significand (h : IsSignificand l u places) :
    IsInteger (significand l).1 u ∧ (significand l).2 = places := by
  obtain ⟨isSign, hwhole, isFraction, nonempty⟩ := h
  rename_i sign whole fraction digits factor
  have hno : '.' ∉ sign ++ whole := by
    simp [isSign.notMem, hwhole.notMem]
  cases isFraction with
  | none =>
    simp only [List.append_nil] at nonempty ⊢
    rw [significand_of_notMem hno]
    exact ⟨.intro isSign hwhole nonempty, rfl⟩
  | point hdigits =>
    rw [significand_append_point hno, withoutUnderscores_eq_self (hdigits.notMem rfl),
      List.append_assoc]
    exact ⟨.intro isSign (areDigits_append.2 ⟨hwhole, hdigits⟩) nonempty, rfl⟩

theorem IsPointedSign.isInteger_significand (h : IsPointedSign l u places) :
    IsInteger (significand l).1 u ∧ (significand l).2 = places := by
  obtain ⟨isSign, signed, hdigits, nonempty⟩ := h
  rename_i sign digits factor
  have hno : '_' ∉ sign ++ digits := by
    simp [isSign.notMem, hdigits.notMem]
  rw [← List.nil_append ('.' :: (sign ++ digits)),
    significand_append_point (l := []) (by simp), withoutUnderscores_eq_self hno]
  exact ⟨.intro isSign hdigits nonempty, rfl⟩

/-- The digits of a significand, without its point, are an integer numeral exactly if there is
at most one point, and the sign is in front or right after a point in front. -/
theorem significand_iff (hl : '_' ∉ l) :
    IsInteger (significand l).1 u ∧ (significand l).2 = places ↔
      IsSignificand l u places ∨ IsPointedSign l u places := by
  constructor
  · rintro ⟨isInteger, rfl⟩
    by_cases hpoint : '.' ∈ l
    · obtain ⟨whole, fraction, rfl, hwhole⟩ := List.eq_append_cons_of_mem hpoint
      rw [significand_append_point hwhole,
        withoutUnderscores_eq_self fun h => hl (by simp [h])] at isInteger ⊢
      exact isSignificand_or_isPointedSign isInteger
    · rw [significand_of_notMem hpoint] at isInteger ⊢
      exact .inl (isSignificand_of_isInteger isInteger)
  · rintro (isSignificand | isPointedSign)
    · exact isSignificand.isInteger_significand
    · exact isPointedSign.isInteger_significand

/-- What a significand consists of. -/
theorem mem_significand (h : IsSignificand l u places ∨ IsPointedSign l u places) {x : Char}
    (hx : x ∈ l) : x.isDigit ∨ x = '.' ∨ x = '+' ∨ x = '-' := by
  rcases h with ⟨isSign, hwhole, isFraction, -⟩ | ⟨isSign, -, hdigits, -⟩
  · simp only [List.mem_append] at hx
    rcases hx with (hx | hx) | hx
    · exact .inr (.inr (isSign.mem hx))
    · exact .inl (hwhole x hx)
    · cases isFraction with
      | none => simp at hx
      | point hdigits =>
        rcases List.mem_cons.1 hx with rfl | hx
        · exact .inr (.inl rfl)
        · exact .inl (hdigits x hx)
  · simp only [List.mem_cons, List.mem_append] at hx
    rcases hx with rfl | hx | hx
    · exact .inr (.inl rfl)
    · exact .inr (.inr (isSign.mem hx))
    · exact .inl (hdigits x hx)

theorem subset_of_significand (l : List Char) : (significand l).1 ⊆ l := by
  refine List.append_subset.2 ⟨(List.takeWhile_sublist _).subset, ?_⟩
  exact ((List.tail_sublist _).trans (List.dropWhile_sublist _)).subset

theorem WithExponent.imp {p q : List Char → Int → Nat → Prop} (h : WithExponent p l u n)
    (himp : ∀ base, base <+: l → ∀ {places}, p base u places → q base u places) :
    WithExponent q l u n := by
  obtain ⟨isSignificand, isExponent⟩ := h
  exact .intro (himp _ (List.prefix_append ..) isSignificand) isExponent

theorem withExponent_or {p q : List Char → Int → Nat → Prop} :
    WithExponent (fun l u k => p l u k ∨ q l u k) l u n ↔
      WithExponent p l u n ∨ WithExponent q l u n := by
  constructor
  · rintro ⟨hp | hq, isExponent⟩
    · exact .inl ⟨hp, isExponent⟩
    · exact .inr ⟨hq, isExponent⟩
  · rintro (⟨hp, isExponent⟩ | ⟨hq, isExponent⟩)
    · exact ⟨.inl hp, isExponent⟩
    · exact ⟨.inr hq, isExponent⟩

/-- The first of the digits and underscores of a text is a digit. -/
def DigitFirst (l : List Char) : Prop :=
  ∃ x ∈ l.find? fun x => x.isDigit || x == '_', x.isDigit

theorem digitFirst_iff : DigitFirst l ↔
    ∃ front x rest, l = front ++ x :: rest ∧ '_' ∉ front ∧ x.isDigit := by
  constructor
  · rintro ⟨x, hx, isDigit⟩
    obtain ⟨-, front, rest, rfl, hfront⟩ := List.find?_eq_some_iff_append.1 hx
    exact ⟨front, x, rest, rfl, fun h => absurd (hfront _ h) (by decide), isDigit⟩
  · rintro ⟨front, x, rest, rfl, noUnderscore, isDigit⟩
    rw [DigitFirst, List.find?_append, List.find?_cons_of_pos (by simp [isDigit])]
    cases hfront : front.find? fun x => x.isDigit || x == '_' with
    | none => exact ⟨x, rfl, isDigit⟩
    | some y =>
      have hy := List.find?_some hfront
      have hne : y ≠ '_' := fun he => noUnderscore (he ▸ List.mem_of_find?_eq_some hfront)
      exact ⟨y, rfl, by simpa [hne] using hy⟩

theorem withoutUnderscores_append_cons {front rest : List Char} {x : Char} (h : '_' ∉ front)
    (hx : x.isDigit) :
    withoutUnderscores (front ++ x :: rest) = front ++ x :: withoutUnderscores rest := by
  rw [withoutUnderscores_append, withoutUnderscores_cons (ne_of_isDigit hx rfl),
    withoutUnderscores_eq_self h]

theorem digitFirst_cons {x : Char} (hdigit : x.isDigit = false) (hne : x ≠ '_') :
    DigitFirst (x :: l) ↔ DigitFirst l := by
  rw [DigitFirst, DigitFirst, List.find?_cons_of_neg (by simp [hdigit, hne])]

/-- The point of a significand does not matter to the order of its digits. -/
theorem digitFirst_significand (l : List Char) : DigitFirst (significand l).1 ↔ DigitFirst l := by
  by_cases hpoint : '.' ∈ l
  · obtain ⟨whole, fraction, rfl, hwhole⟩ := List.eq_append_cons_of_mem hpoint
    rw [significand_append_point hwhole, DigitFirst, DigitFirst, List.find?_append,
      List.find?_append, List.find?_cons_of_neg (by decide)]
  · rw [significand_of_notMem hpoint]

theorem significand_withoutUnderscores (l : List Char) : significand (withoutUnderscores l) =
    (withoutUnderscores (significand l).1, (significand l).2) := by
  have hmem : ∀ m, '.' ∉ m → '.' ∉ withoutUnderscores m :=
    fun m hm h => hm (List.mem_filter.1 h).1
  by_cases hpoint : '.' ∈ l
  · obtain ⟨whole, fraction, rfl, hwhole⟩ := List.eq_append_cons_of_mem hpoint
    rw [withoutUnderscores_append, withoutUnderscores_cons (by decide),
      significand_append_point (hmem _ hwhole), significand_append_point hwhole,
      withoutUnderscores_append, withoutUnderscores_eq_self (notMem_withoutUnderscores fraction)]
  · rw [significand_of_notMem hpoint, significand_of_notMem (hmem _ hpoint)]

/-- Digits are read without the underscores between them, of which none goes first. -/
theorem body?_eq_some_iff {k : Nat} : digits?.body? l = some k ↔
    DigitFirst l ∧ natural? (withoutUnderscores l) = some k := by
  rw [body?_eq]
  cases l with
  | nil => simp [DigitFirst, withoutUnderscores, natural?]
  | cons x l =>
    by_cases hx : x = '_'
    · subst hx
      simp [DigitFirst]
    · rw [if_neg (by simpa using hx), iff_and_self, withoutUnderscores_cons hx]
      intro hread
      have isDigit : x.isDigit := (natural?_eq_some_iff.1 hread).1 x (.head _)
      exact digitFirst_iff.2 ⟨[], x, l, rfl, List.not_mem_nil, isDigit⟩

theorem digits?_eq_some_iff : digits? l = some u ↔
    DigitFirst l ∧ IsInteger (withoutUnderscores l) u := by
  rw [← integer?_eq_some_iff]
  unfold digits?
  split
  · rw [digitFirst_cons rfl (by decide), withoutUnderscores_cons (by decide), integer?]
    simp [body?_eq_some_iff, Option.bind_eq_some_iff, and_assoc]
  · rw [digitFirst_cons rfl (by decide), withoutUnderscores_cons (by decide), integer?]
    simp [body?_eq_some_iff, Option.bind_eq_some_iff, and_assoc]
  · next hminus hplus =>
    -- no sign comes to the front when underscores are taken off
    have hunsigned : DigitFirst l → (integer? (withoutUnderscores l) = some u ↔
        ∃ k, natural? (withoutUnderscores l) = some k ∧ (k : Int) = u) := by
      intro hfirst
      cases l with
      | nil => simp [DigitFirst] at hfirst
      | cons x l =>
        have hx : x ≠ '_' := by
          rintro rfl
          simp [DigitFirst] at hfirst
        rw [withoutUnderscores_cons hx, integer?]
        · simp [Option.bind_eq_some_iff]
        · exact fun r h => hminus l ((List.cons.inj h).1 ▸ rfl)
        · exact fun r h => hplus l ((List.cons.inj h).1 ▸ rfl)
    simp +contextual [body?_eq_some_iff, Option.bind_eq_some_iff, and_assoc, hunsigned]

/-- The digits of a significand are read if they make one without the underscores. -/
theorem spacedSignificand_iff : digits? (significand l).1 = some u ∧ (significand l).2 = places ↔
    IsSpacedSignificand l u places := by
  have hplain : IsInteger (withoutUnderscores (significand l).1) u ∧ (significand l).2 = places ↔
      IsSignificand (withoutUnderscores l) u places ∨
        IsPointedSign (withoutUnderscores l) u places := by
    rw [← significand_iff (notMem_withoutUnderscores l), significand_withoutUnderscores]
  rw [digits?_eq_some_iff, digitFirst_significand, and_assoc, hplain, digitFirst_iff]
  constructor
  · rintro ⟨⟨front, x, rest, rfl, noUnderscore, isDigit⟩, isSignificand⟩
    rw [withoutUnderscores_append_cons noUnderscore isDigit] at isSignificand
    exact .intro noUnderscore isDigit isSignificand
  · rintro ⟨noUnderscore, isDigit, isSignificand⟩
    rw [← withoutUnderscores_append_cons noUnderscore isDigit] at isSignificand
    exact ⟨⟨_, _, _, rfl, noUnderscore, isDigit⟩, isSignificand⟩

/-- What a significand with underscores consists of. -/
theorem IsSpacedSignificand.mem (h : IsSpacedSignificand l u places) {x : Char} (hx : x ∈ l) :
    x.isDigit ∨ x = '.' ∨ x = '+' ∨ x = '-' ∨ x = '_' := by
  obtain ⟨noUnderscore, isDigit, isSignificand⟩ := h
  by_cases hunderscore : x = '_'
  · exact .inr (.inr (.inr (.inr hunderscore)))
  · rw [← withoutUnderscores_append_cons noUnderscore isDigit] at isSignificand
    rcases mem_significand isSignificand (List.mem_filter.2 ⟨hx, bne_iff_ne.2 hunderscore⟩) with
      hx | hx | hx | hx <;> simp [hx]

/-- The reader of decimals accepts exactly the numerals, and those with a point in front of the
sign, with any underscores between their digits. -/
theorem ofChars?_eq_some_iff_isSpacedNumeral :
    ofChars? l = some d ↔ IsSpacedNumeral l d.unscaled d.scale.toInt := by
  constructor
  · intro hread
    have hhead : ∀ x ∈ (l.dropWhile fun x => !isExponentMark x).head?, isExponentMark x := by
      intro x hx
      simpa using head?_dropWhile_eq_false (fun x => !isExponentMark x) l x hx
    rw [← List.takeWhile_append_dropWhile (p := fun x => !isExponentMark x) (l := l)] at hread ⊢
    obtain ⟨n, isExponent, hdigits, hscale⟩ :=
      (ofChars?_append (List.all_eq_true.1 List.all_takeWhile) hhead).1 hread
    rw [← hscale]
    exact ⟨spacedSignificand_iff.1 ⟨hdigits, rfl⟩, isExponent⟩
  · generalize hu : d.unscaled = u
    generalize hk : d.scale.toInt = k
    rintro ⟨isSignificand, isExponent⟩
    rename_i base exponent n places
    obtain ⟨hdigits, rfl⟩ := spacedSignificand_iff.2 isSignificand
    refine (ofChars?_append ?_ isExponent.isExponentMark_head?).2
      ⟨n, isExponent, hu ▸ hdigits, hk.symm⟩
    intro x hx
    rcases isSignificand.mem hx with hx | rfl | rfl | rfl | rfl
    · simp [isExponentMark, ne_of_isDigit hx (y := 'e') rfl, ne_of_isDigit hx (y := 'E') rfl]
    all_goals rfl

theorem isSpacedSignificand_iff (h : '_' ∉ l) :
    IsSpacedSignificand l u places ↔ IsSignificand l u places ∨ IsPointedSign l u places := by
  rw [← spacedSignificand_iff, digits?_eq_integer? fun hx => h (subset_of_significand _ hx),
    integer?_eq_some_iff, significand_iff h]

/-- Without underscores, the reader of decimals accepts exactly the numerals, and those with a point
in front of the sign. -/
theorem ofChars?_eq_some_iff (h : '_' ∉ l) : ofChars? l = some d ↔
    IsNumeral l d.unscaled d.scale.toInt ∨ IsPointFirst l d.unscaled d.scale.toInt := by
  rw [ofChars?_eq_some_iff_isSpacedNumeral, IsNumeral, IsPointFirst, ← withExponent_or]
  have hplain : ∀ base, base <+: l → '_' ∉ base := fun base hbase hx => h (hbase.subset hx)
  constructor
  · exact fun hnumeral => hnumeral.imp fun base hbase =>
      (isSpacedSignificand_iff (hplain base hbase)).1
  · exact fun hnumeral => hnumeral.imp fun base hbase =>
      (isSpacedSignificand_iff (hplain base hbase)).2

end Decimal
end TextualData
