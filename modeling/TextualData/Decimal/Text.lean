import TextualData.Decimal.Nearest

/-!
# Doubles as text

Two ways to write the shortest digits of a double: always positional, or with an exponent where
the number is very large or very small.
-/

namespace TextualData
namespace Decimal

/-- Digits times a power of ten in positional notation, whole numbers with `.0`. -/
def positional (digits : List Char) (power : Int) : List Char :=
  let whole := digits.length + power
  if 0 ≤ power then digits ++ List.replicate power.natAbs '0' ++ ['.', '0']
  else if 0 < whole then digits.take whole.toNat ++ '.' :: digits.drop whole.toNat
  else '0' :: '.' :: (List.replicate whole.natAbs '0' ++ digits)

/-- Digits times a power of ten with an exponent. -/
def scientific (digits : List Char) (power : Int) : List Char :=
  let exponent := 'e' :: Numeral.ofInt (digits.length + power - 1)
  match digits with
  | [] => exponent
  | [d] => d :: exponent
  | d :: ds => d :: '.' :: (ds ++ exponent)

/-- The sign of a double, which the negative zero has too. -/
def signOf (f : Float) : List Char :=
  if Binary.count ≤ f.toBits.toNat then ['-'] else []

/-- A finite double in positional notation. -/
def floatText (tie : Tie) (f : Float) : List Char :=
  let (digits, power) := shortestOf tie f
  signOf f ++ positional (Numeral.ofNat digits) power

/-- A finite double, with an exponent if the point stands after more than sixteen digits or before
at least the given number of zeros. -/
def floatTextWithExponent (tie : Tie) (zeros : Int) (f : Float) : List Char :=
  let (digits, power) := shortestOf tie f
  let l := Numeral.ofNat digits
  let whole := l.length + power
  if whole ≤ positionalDigits && -zeros < whole then signOf f ++ positional l power
  else signOf f ++ scientific l power

end Decimal
end TextualData
