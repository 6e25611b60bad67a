import TextualData.Decimal.Shortest

/-!
# Decimals and double-precision numbers

`Decimal.toFloat` is the double-precision number for a decimal, and `Decimal.ofFloat?` the decimal
of the shortest text of a double.
-/

namespace TextualData
namespace Decimal

/-- The number of digits kept at least when a long fraction is cut. -/
def keptDigits : Nat := 25

/-- The number of digits cut at a time. -/
def cutDigits : Nat := 19

/-- Cuts the last digits of a long fraction, `cutDigits` at a time and toward zero. The length is
estimated from the binary size of the number. -/
def cut (magnitude : Nat) (places : Int) : Nat × Int :=
  let bits := if magnitude = 0 then 0 else magnitude.log2 + 1
  let digits := (bits.toFloat * 0.301029995663981195).floor.toUInt64.toNat
  let times := (digits - keptDigits) / cutDigits
  (magnitude / Nat.pow 10 (cutDigits * times), places - cutDigits * times)

/-- The double nearest to `magnitude * 10 ^ power`; infinite if too large, zero if too small. -/
def nearest (magnitude : Nat) (power : Int) : Float :=
  let top := (Numeral.ofNat magnitude).length + power
  if magnitude = 0 || top < -400 then 0
  else if 400 < top then 1.0 / 0.0
  else Float.ofScientific magnitude (power < 0) power.natAbs

/-- The double nearest to a power of ten. -/
def powerOfTen (n : Nat) : Float :=
  nearest 1 n

/-- The size of a decimal as a double: exact where it has a fraction, and an integer times a power
of ten where its scale is not positive. -/
def magnitudeToFloat (magnitude : Nat) (places : Int) : Float :=
  if 0 < places then nearest magnitude (-places)
  else if places = 0 then nearest magnitude 0
  else nearest magnitude 0 * powerOfTen places.natAbs

/-- The double for a decimal. Zero has no sign, and a fraction with very many digits is cut
first. -/
def toFloat (d : Decimal) : Float :=
  if d.unscaled = 0 then 0
  else
    let (magnitude, places) :=
      if 0 < d.scale.toInt then cut d.unscaled.natAbs d.scale.toInt
      else (d.unscaled.natAbs, d.scale.toInt)
    let size := magnitudeToFloat magnitude places
    if d.unscaled < 0 then -size else size

/-- The shortest digits of a finite double and the power of ten they count. -/
def shortestOf (tie : Tie) (f : Float) : Nat × Int :=
  let bits := f.toBits.toNat % Binary.count
  if bits = 0 then (0, 0) else (Binary.ofBits bits).shortest tie

/-- The greatest number of digits before the point in positional notation. -/
def positionalDigits : Nat := 16

/-- The decimal that the shortest text of a double denotes, `none` for infinities and NaN. Of two
texts that are equally near it is the even one, and a whole number of at most sixteen digits is
written with `.0` and so has scale one. -/
def ofFloat? (f : Float) : Option Decimal := do
  if f.isNaN || f.isInf then none
  let (digits, power) := shortestOf .even f
  let sign : Int := if f < 0 then -1 else 1
  if 0 ≤ power && (Numeral.ofNat digits).length + power ≤ positionalDigits then
    return ⟨sign * (digits * Nat.pow 10 (power.natAbs + 1) : Nat), 1⟩
  let scale ← Numeral.fit64? (-power)
  return ⟨sign * digits, scale⟩

end Decimal
end TextualData
