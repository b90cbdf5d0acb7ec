import FragmentParser.Number.Digits

/-!
# Decimal numerals

A numeral with a decimal point and an exponent stands for an **exact** number, `mantissa · 10 ^
exponent`. Where such a number is to become a floating-point number of 64 bits, it may be too large
for one; `Decimal.overflows` decides that in whole numbers.
-/

namespace FragmentParser

/-- The number `± mantissa · 10 ^ exponent`. -/
structure Decimal where
  /-- Whether it has a minus sign. -/
  negative : Bool
  /-- Its digits as a number. -/
  mantissa : Nat
  /-- The power of ten they are counted in. -/
  exponent : Int
deriving DecidableEq

namespace Decimal

/-- The numeral made of the digits before and after a point and an exponent. -/
def ofParts (negative : Bool) (whole fraction : List Char) (exponent : Int) : Decimal :=
  ⟨negative, natOfDigits (whole ++ fraction), exponent - fraction.length⟩

/-- How many decimal digits a positive number has, and one for zero. -/
def digitCount (n : Nat) : Nat := (decimalText n).length

/-- Whether the number, without its sign, is at least halfway from the largest floating-point number
of 64 bits to the one that would come next, and so is too large. -/
def overflows (d : Decimal) : Bool :=
  if d.mantissa = 0 then false
  else
    let magnitude := d.exponent + digitCount d.mantissa
    if 400 < magnitude then true
    else if magnitude < 300 then false
    else
      let limit := Nat.pow 2 1024 - Nat.pow 2 970
      if 0 ≤ d.exponent then limit ≤ d.mantissa * Nat.pow 10 d.exponent.toNat
      else limit * Nat.pow 10 (-d.exponent).toNat ≤ d.mantissa

end Decimal

end FragmentParser
