import TextualData.Numeral

/-!
# Decimal numbers

A `Decimal` is an integer together with a scale: `unscaled * 10 ^ (-scale)`. The pair is not
reduced, so `1.50` and `1.5` are different decimals of equal value. `Decimal.ofChars?` reads a
numeral with its scale exactly as written, `Decimal.literal?` writes one that never looks like an
integer, and `Decimal.sameValue` compares by value.
-/

namespace TextualData

/-- The number `unscaled * 10 ^ (-scale)`, kept with its scale. -/
structure Decimal where
  /-- All digits of the number, with its sign. -/
  unscaled : Int
  /-- The number of digits after the decimal point; negative if zeros are left out at the end. -/
  scale : Int64
deriving DecidableEq, Repr

namespace Decimal

/-- Reads a sign and digits, between which underscores may stand. -/
def digits? (l : List Char) : Option Int :=
  match l with
  | '-' :: r => (body? r).map fun n => -(n : Int)
  | '+' :: r => (body? r).map fun n => (n : Int)
  | r => (body? r).map fun n => (n : Int)
where
  /-- The digits without their sign; the first character is no underscore. -/
  body? (l : List Char) : Option Nat :=
    if l.head? = some '_' then none else Numeral.natural? (l.filter (· != '_'))

/-- Whether the character opens the exponent of a numeral. -/
def isExponentMark (c : Char) : Bool :=
  c == 'e' || c == 'E'

/-- The digits of a significand without its point, and the number of them after the point. A point
at the very end counts for nothing. -/
def significand (l : List Char) : List Char × Nat :=
  let whole := l.takeWhile (· != '.')
  let fraction := (l.dropWhile (· != '.')).tail
  (whole ++ fraction, (fraction.filter (· != '_')).length)

/-- Reads a decimal numeral: a significand with at most one point, and an optional exponent. The
scale, digits after the point less the exponent, has to fit in 64 bits. -/
def ofChars? (l : List Char) : Option Decimal := do
  let base := l.takeWhile fun c => !isExponentMark c
  let exponent ← match l.dropWhile fun c => !isExponentMark c with
    | [] => some 0
    | _ :: e => Numeral.integer? e
  let (digits, places) := significand base
  let unscaled ← digits? digits
  let scale ← Numeral.fit64? (places - exponent)
  return ⟨unscaled, scale⟩

/-- The number as a numeral with a fraction or an exponent, so that it never reads as an integer.
The exponent is the opposite of the scale. Where that overflows, the program stops, and there is no
numeral. -/
def literal? (d : Decimal) : Option (List Char) :=
  let sign := if d.unscaled < 0 then ['-'] else []
  let digits := Numeral.ofNat d.unscaled.natAbs
  let places := d.scale.toInt
  if places ≤ 0 ∨ digits.length + 6 < places then
    (Numeral.fit64? (-places)).map fun exponent =>
      sign ++ digits ++ 'e' :: Numeral.ofInt exponent.toInt
  else if places < digits.length then
    let whole := digits.length - places.toNat
    some (sign ++ digits.take whole ++ '.' :: digits.drop whole)
  else
    some (sign ++ '0' :: '.' :: (List.replicate (places.toNat - digits.length) '0' ++ digits))

/-- Divides out trailing zeros: the number of them taken off, at most `limit`, and what is left. -/
def dropZeros : (limit : Nat) → Nat → Nat × Nat
  | 0, n => (0, n)
  | limit + 1, n =>
    if n % 10 = 0 then
      let (count, m) := dropZeros limit (n / 10)
      (count + 1, m)
    else (0, n)

/-- The reduced form of a decimal, equal for decimals of equal value: no trailing zeros, and scale
zero for zero. -/
def reduced (d : Decimal) : Int × Int :=
  if d.unscaled = 0 then (0, 0)
  else
    let (count, m) := dropZeros (Numeral.ofNat d.unscaled.natAbs).length d.unscaled.natAbs
    (d.unscaled.sign * m, d.scale.toInt - count)

/-- Whether two decimals denote the same number. -/
def sameValue (a b : Decimal) : Bool :=
  a.reduced == b.reduced

end Decimal
end TextualData
