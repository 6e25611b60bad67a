/-!
# Numerals

Decimal digits of naturals and integers, written and read. An integer numeral is an optional sign
and one or more ASCII digits; `Numeral.int64?` reads those whose value fits in 64 bits.
-/

namespace TextualData
namespace Numeral

/-- The digits of a natural number, most significant first. -/
def ofNat (n : Nat) : List Char :=
  Nat.toDigits 10 n

/-- The digits of an integer, after a minus sign if it is negative. -/
def ofInt (n : Int) : List Char :=
  if n < 0 then '-' :: ofNat n.natAbs else ofNat n.natAbs

/-- The value of a nonempty list of digits. -/
def natural? (l : List Char) : Option Nat :=
  if l.isEmpty then none
  else if l.all Char.isDigit then some (Nat.ofDigitChars 10 l 0)
  else none

/-- The value of an optional sign followed by digits. -/
def integer? : List Char → Option Int
  | '-' :: l => (natural? l).map fun n => -(n : Int)
  | '+' :: l => (natural? l).map fun n => (n : Int)
  | l => (natural? l).map fun n => (n : Int)

/-- The integer as a 64-bit word, if it fits. -/
def fit64? (n : Int) : Option Int64 :=
  if Int64.minValue.toInt ≤ n ∧ n ≤ Int64.maxValue.toInt then some (Int64.ofInt n) else none

/-- The value of an integer numeral that fits in 64 bits. -/
def int64? (l : List Char) : Option Int64 :=
  integer? l >>= fit64?

@[simp] theorem natural?_ofNat (n : Nat) : natural? (ofNat n) = some n := by
  have hd : (ofNat n).all Char.isDigit = true := by
    simp only [List.all_eq_true]
    intro c hc
    exact Nat.isDigit_of_mem_toDigits (by decide) (by decide) hc
  have hv : Nat.ofDigitChars 10 (ofNat n) 0 = n :=
    Nat.ofDigitChars_toDigits (by decide) (by decide)
  have hne : (ofNat n).isEmpty = false := by
    cases h : ofNat n with
    | nil => simp [ofNat] at h
    | cons c l => rfl
  simp [natural?, hne, hd, hv]

end Numeral
end TextualData
