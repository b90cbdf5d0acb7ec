import FragmentParser.Number.Decimal

/-!
# Floating-point numbers

The numbers of the 64-bit binary format, as exact values `± significand · 2 ^ exponent`. A decimal
numeral is **rounded to the nearest** of them, to the even one of two that are equally near. A
number is written with the **fewest digits that read back** as the same number, always in positional
notation; here the larger one of two numerals that are equally near counts.
-/

namespace FragmentParser

/-- A floating-point number of 64 bits. -/
inductive Double where
  /-- The number `± significand · 2 ^ exponent`. -/
  | finite (negative : Bool) (significand : Nat) (exponent : Int)
  /-- An infinity. -/
  | infinite (negative : Bool)
  /-- Not a number. -/
  | nan
deriving DecidableEq

namespace Double

/-- The quotient rounded to the nearest whole number, to the even one of two. -/
def divideEven (num den : Nat) : Nat :=
  let q := num / den
  let twice := 2 * (num % den)
  if den < twice ∨ (twice = den ∧ q % 2 = 1) then q + 1 else q

/-- The smallest exponent. -/
def minExponent : Int := -1074

/-- The largest exponent. -/
def maxExponent : Int := 971

/-- The nearest number to the quotient of two positive numbers that is not too large. -/
def ofQuotient (negative : Bool) (num den : Nat) : Double :=
  let guess : Int := num.log2 - den.log2
  let small :=
    if 0 ≤ guess then num < den * Nat.pow 2 guess.toNat
    else num * Nat.pow 2 (-guess).toNat < den
  let exponent := max minExponent ((if small then guess - 1 else guess) - 52)
  let significand :=
    if 0 ≤ exponent then divideEven num (den * Nat.pow 2 exponent.toNat)
    else divideEven (num * Nat.pow 2 (-exponent).toNat) den
  if significand = Nat.pow 2 53 then .finite negative (Nat.pow 2 52) (exponent + 1)
  else .finite negative significand exponent

/-- The nearest number to a decimal numeral; an infinity if that is too large. -/
def ofDecimal (d : Decimal) : Double :=
  if d.overflows then .infinite d.negative
  else if d.mantissa = 0 ∨ d.exponent + Decimal.digitCount d.mantissa < -400 then
    .finite d.negative 0 minExponent
  else if 0 ≤ d.exponent then ofQuotient d.negative (d.mantissa * Nat.pow 10 d.exponent.toNat) 1
  else ofQuotient d.negative d.mantissa (Nat.pow 10 (-d.exponent).toNat)

/-- The nearest number to `± num / den · 2 ^ power`; an infinity if that is too large. -/
def ofScaled (negative : Bool) (num den : Nat) (power : Int) : Double :=
  if num = 0 then .finite negative 0 minExponent
  else
    let nearest :=
      if 0 ≤ power then ofQuotient negative (num * Nat.pow 2 power.toNat) den
      else ofQuotient negative num (den * Nat.pow 2 (-power).toNat)
    match nearest with
    | .finite _ _ exponent => if maxExponent < exponent then .infinite negative else nearest
    | _ => nearest

/-- The product of two numbers, rounded to the nearest. -/
def product : Double → Double → Double
  | .finite a s x, .finite b t y => ofScaled (a != b) (s * t) 1 (x + y)
  | .infinite a, .infinite b => .infinite (a != b)
  | .infinite a, .finite b t _ => if t = 0 then .nan else .infinite (a != b)
  | .finite a s _, .infinite b => if s = 0 then .nan else .infinite (a != b)
  | .nan, _ => .nan
  | _, .nan => .nan

/-- The quotient of two numbers, rounded to the nearest. -/
def quotient : Double → Double → Double
  | .finite a s x, .finite b t y =>
    if t ≠ 0 then ofScaled (a != b) s t (x - y)
    else if s = 0 then .nan
    else .infinite (a != b)
  | .infinite _, .infinite _ => .nan
  | .infinite a, .finite b _ _ => .infinite (a != b)
  | .finite a _ _, .infinite b => .finite (a != b) 0 minExponent
  | .nan, _ => .nan
  | _, .nan => .nan

/-- Whether the number is an infinity. -/
def isInfinite : Double → Bool
  | .infinite _ => true
  | _ => false

/-- Whether the number is zero. -/
def isZero : Double → Bool
  | .finite _ significand _ => significand = 0
  | _ => false

/-- The nearest whole number that is not negative, a half being rounded up, and at most `limit`;
zero for what is not a number. -/
def toNatAtMost (limit : Nat) : Double → Nat
  | .nan => 0
  | .infinite negative => if negative then 0 else limit
  | .finite true _ _ => 0
  | .finite false significand exponent =>
    let n :=
      if 0 ≤ exponent then significand * Nat.pow 2 exponent.toNat
      else (2 * significand + Nat.pow 2 (-exponent).toNat) / (2 * Nat.pow 2 (-exponent).toNat)
    min n limit

/-! ### Writing -/

/-- The digits and the power of ten of a decimal numeral with `count` digits that reads back as the
number, whose neighbours' midpoints are `low` and `high`: all in units of `unit` over `den`. Of two
numerals the nearer one counts, and of two that are equally near the larger. -/
def digitsWithin (even : Bool) (low value high unit den : Nat) (magnitude : Int) (count : Nat) :
    Option (Nat × Int) :=
  let power := magnitude - count
  -- a numeral `c` stands for `c * stepNum / stepDen` units
  let stepNum := if 0 ≤ power then Nat.pow 10 power.toNat * den else den
  let stepDen := if 0 ≤ power then unit else Nat.pow 10 (-power).toNat * unit
  let fits (c : Nat) : Bool :=
    let x := c * stepNum
    if even then low * stepDen ≤ x ∧ x ≤ high * stepDen
    else low * stepDen < x ∧ x < high * stepDen
  let below := value * stepDen / stepNum
  let lower := if fits below then some below else none
  let upper := if fits (below + 1) then some (below + 1) else none
  match lower, upper with
  | none, none => none
  | some c, none => some (c, power)
  | none, some c => some (c, power)
  | some a, some b =>
    let toLower := value * stepDen - a * stepNum
    let toUpper := b * stepNum - value * stepDen
    some (if toLower < toUpper then a else b, power)

/-- The fewest digits that read back as a positive number, with their power of ten. No digit at all
stands for the next power of ten above the number, which may read back as it. -/
def shortestDigits (significand : Nat) (exponent : Int) : Nat × Int :=
  let value := 4 * significand
  let low := value - if significand = Nat.pow 2 52 ∧ exponent ≠ minExponent then 1 else 2
  let high := value + 2
  -- one unit is a quarter of the last binary place
  let unitExponent := exponent - 2
  let unit := if 0 ≤ unitExponent then Nat.pow 2 unitExponent.toNat else 1
  let den := if 0 ≤ unitExponent then 1 else Nat.pow 2 (-unitExponent).toNat
  let guess : Int := Decimal.digitCount (value * unit) - Decimal.digitCount den
  let reaches :=
    if 0 ≤ guess then den * Nat.pow 10 guess.toNat ≤ value * unit
    else den ≤ value * unit * Nat.pow 10 (-guess).toNat
  let magnitude := if reaches then guess + 1 else guess
  ((List.range 18).findSome? fun count ↦
    digitsWithin (significand % 2 = 0) low value high unit den magnitude count).getD
      (significand, 0)

/-- Digits with the point put `power` places to the right of their end. -/
def positional (digits : List Char) (power : Int) : List Char :=
  if 0 ≤ power then digits ++ List.replicate power.toNat '0'
  else
    let places := (-power).toNat
    let padded := List.replicate (places + 1 - digits.length) '0' ++ digits
    padded.take (padded.length - places) ++ '.' :: padded.drop (padded.length - places)

/-- The number written with the fewest digits that read back. -/
def toText : Double → String
  | .nan => "NaN"
  | .infinite negative => if negative then "-inf" else "inf"
  | .finite negative significand exponent =>
    let digits :=
      if significand = 0 then ['0']
      else
        let (n, power) := shortestDigits significand exponent
        positional (Nat.toDigits 10 n) power
    String.ofList (if negative then '-' :: digits else digits)

example : (ofDecimal ⟨false, 15, -1⟩).toText = "1.5" := by decide +kernel

example : (ofDecimal ⟨true, 1, 22⟩).toText = "-10000000000000000000000" := by decide +kernel

example : (ofDecimal ⟨true, 1, -7⟩).toText = "-0.0000001" := by decide +kernel

example : (ofDecimal ⟨false, 9549358345937112, -2⟩).toText = "95493583459371.13" := by
  decide +kernel

example : (ofDecimal ⟨false, 30000000000000004, -17⟩).toText = "0.30000000000000004" := by
  decide +kernel

end Double

end FragmentParser
