import FragmentParser.Number.Double

/-!
# Estimated floating-point numbers

The number nearest to a decimal numeral takes exact arithmetic. An **estimate** of it takes two
roundings: the leading digits, as many as fit in 64 bits, are rounded to a floating-point number,
and that is multiplied or divided by a power of ten, which is rounded too. An estimate may be a
neighbour of the nearest number, and so may be an infinity where that is finite, or the reverse.
-/

namespace FragmentParser

namespace Decimal

/-- The largest mantissa of 64 bits. -/
def maxMantissa : Nat := 0xFFFFFFFFFFFFFFFF

/-- Append digits to a mantissa as long as it fits in 64 bits: the mantissa, and the digits from the
first one on that does not fit. -/
def appendFitting (mantissa : Nat) : List Char → Nat × List Char
  | [] => (mantissa, [])
  | c :: cs =>
    let longer := 10 * mantissa + digitValue c
    if longer ≤ maxMantissa then appendFitting longer cs else (mantissa, c :: cs)

/-- The numeral made of the leading digits before a point and after it, and an exponent. Digits
before the point that do not fit count as zeros, and those after it not at all. -/
def ofLeading (negative : Bool) (whole fraction : List Char) (exponent : Int) : Decimal :=
  let (wholeMantissa, zeros) := appendFitting 0 whole
  let (mantissa, left) := appendFitting wholeMantissa fraction
  ⟨negative, mantissa, exponent + zeros.length + left.length - fraction.length⟩

/-- The greatest power of ten that is no infinity. -/
def maxPower : Nat := 308

/-- The estimate of a numeral. A number is divided by ten at most `maxPower` times in one step, and
nothing is left of one that takes more than two steps. -/
def estimate (d : Decimal) : Double :=
  let power (n : Nat) : Double := .ofDecimal ⟨false, 1, n⟩
  let leading := Double.ofDecimal ⟨d.negative, d.mantissa, 0⟩
  let down := (-d.exponent).toNat
  if d.mantissa = 0 then leading
  else if maxPower < d.exponent then .infinite d.negative
  else if 0 ≤ d.exponent then leading.product (power d.exponent.toNat)
  else if down ≤ maxPower then leading.quotient (power down)
  else if down ≤ 2 * maxPower then
    (leading.quotient (power maxPower)).quotient (power (down - maxPower))
  else .finite d.negative 0 Double.minExponent

example : (ofLeading false ['1'] ['5'] 0).estimate = .ofDecimal ⟨false, 15, -1⟩ := by
  decide +kernel

example : (estimate ⟨true, 17976931348623158, 292⟩).isInfinite := by decide +kernel

example : ¬ (estimate ⟨false, 179769313486231583, 291⟩).isInfinite := by decide +kernel

end Decimal

end FragmentParser
