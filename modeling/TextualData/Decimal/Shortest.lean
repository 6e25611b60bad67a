import TextualData.Decimal.Basic

/-!
# The shortest decimal of a binary fraction

`Binary` is a number `mantissa * 2 ^ exponent` together with its distance to the next smaller
floating-point number. `Binary.shortest` gives the fewest decimal digits that read back as the
same floating-point number and, among those, the nearest to it; where two are equally near, a `Tie`
tells which. All arithmetic is exact.
-/

namespace TextualData

/-- The choice between two neighbours that are equally near. -/
inductive Tie where
  | up
  | even
deriving DecidableEq, Repr

/-- The one of `floor` and its successor that the rule chooses. -/
def Tie.choose (floor : Nat) : Tie → Nat
  | up => floor + 1
  | even => floor + floor % 2

/-- The positive number `mantissa * 2 ^ exponent`, one of the floating-point numbers. -/
structure Binary where
  mantissa : Nat
  /-- The exponent of the spacing to the next greater floating-point number. -/
  exponent : Int
  /-- Whether the next smaller floating-point number is only half as far away. -/
  narrowBelow : Bool
deriving DecidableEq, Repr

namespace Binary

/-- The number of fractions of a double, which take up 52 bits. -/
def fractionCount : Nat := 0x10000000000000

/-- The number of exponents of a double, which take up 11 bits. -/
def exponentCount : Nat := 0x800

/-- The number of doubles of one sign. -/
def count : Nat :=
  fractionCount * exponentCount

/-- The positive double-precision number with the given bits, sign bit clear. -/
def ofBits (bits : Nat) : Binary :=
  let fraction : Nat := bits % fractionCount
  let biased : Nat := bits / fractionCount % exponentCount
  if biased = 0 then ⟨fraction, -1074, false⟩
  else ⟨fractionCount + fraction, (biased : Int) - 1075, fraction = 0 && biased != 1⟩

/-- The quotient of two naturals. -/
structure Ratio where
  numerator : Nat
  denominator : Nat

namespace Ratio

/-- The ratio `n * base ^ e`. -/
def scaled (n base : Nat) (e : Int) : Ratio :=
  if e < 0 then ⟨n, Nat.pow base e.natAbs⟩ else ⟨n * Nat.pow base e.natAbs, 1⟩

/-- Whether the first ratio is less than the second. -/
def less (a b : Ratio) : Bool :=
  a.numerator * b.denominator < b.numerator * a.denominator

/-- The distance between two ratios. -/
def distance (a b : Ratio) : Ratio :=
  let x := a.numerator * b.denominator
  let y := b.numerator * a.denominator
  ⟨max x y - min x y, a.denominator * b.denominator⟩

end Ratio

/-- The multiple `n` of a quarter of the spacing of `b`, as a ratio. -/
def quarters (b : Binary) (n : Nat) : Ratio :=
  .scaled n 2 (b.exponent - 2)

/-- Whether the ratio rounds to `b`: it lies between the midpoints to the neighbours, and may be a
midpoint itself if the mantissa is even. -/
def rounds (b : Binary) (r : Ratio) : Bool :=
  let low := b.quarters (4 * b.mantissa - if b.narrowBelow then 1 else 2)
  let high := b.quarters (4 * b.mantissa + 2)
  if b.mantissa % 2 = 0 then !r.less low && !high.less r else low.less r && r.less high

/-- The exponent of the leading decimal digit. -/
def magnitude (b : Binary) : Int :=
  let r := b.quarters (4 * b.mantissa)
  -- A positive double exceeds 10 to the -350, so the shifted integer part has a digit.
  (Numeral.ofNat (r.numerator * Nat.pow 10 350 / r.denominator)).length - 351

/-- The nearest number of `count` digits that rounds to `b`, as digits and a power of ten. -/
def digits? (tie : Tie) (b : Binary) (count : Nat) : Option (Nat × Int) :=
  let power := b.magnitude + 1 - count
  let value := b.quarters (4 * b.mantissa)
  let unit := Ratio.scaled 1 10 power
  let floor := value.numerator * unit.denominator / (value.denominator * unit.numerator)
  let below := Ratio.scaled floor 10 power
  let above := Ratio.scaled (floor + 1) 10 power
  let nearer :=
    if (value.distance above).less (value.distance below) then floor + 1
    else if (value.distance below).less (value.distance above) then floor
    else tie.choose floor
  if b.rounds (.scaled nearer 10 power) then some (nearer, power)
  else if b.rounds below then some (floor, power)
  else if b.rounds above then some (floor + 1, power)
  else none

/-- The fewest digits that read back as `b`, nearest first, and the power of ten they count. -/
def shortest (tie : Tie) (b : Binary) : Nat × Int :=
  let (digits, power) := ((List.range 17).findSome? fun n => b.digits? tie (n + 1)).getD (0, 0)
  let (zeros, digits) := Decimal.dropZeros 17 digits
  (digits, power + zeros)

end Binary
end TextualData
