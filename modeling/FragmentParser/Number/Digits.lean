/-!
# Digits

Whole numbers and their digits: `decimalText` writes a number, `natOfDigits` and `natInBase?` read
one.
-/

namespace FragmentParser

/-- A number in decimal digits. -/
def decimalText (n : Nat) : String := String.ofList (Nat.toDigits 10 n)

/-- The value of an ASCII decimal digit. -/
def digitValue (c : Char) : Nat := c.toNat - '0'.toNat

/-- The number that a run of decimal digits stands for. -/
def natOfDigits (cs : List Char) : Nat := cs.foldl (fun n c ↦ 10 * n + digitValue c) 0

/-- The value of a hexadecimal digit, in capital or small letters. -/
def hexValue? (c : Char) : Option Nat :=
  if '0' ≤ c ∧ c ≤ '9' then some (c.toNat - '0'.toNat)
  else if 'a' ≤ c ∧ c ≤ 'f' then some (c.toNat - 'a'.toNat + 10)
  else if 'A' ≤ c ∧ c ≤ 'F' then some (c.toNat - 'A'.toNat + 10)
  else none

/-- The number that digits stand for in a base up to sixteen; there has to be one. -/
def natInBase? (base : Nat) (cs : List Char) : Option Nat :=
  if cs.isEmpty then none
  else
    cs.foldl (fun n? c ↦ do some (base * (← n?) + (← (hexValue? c).filter (· < base)))) (some 0)

end FragmentParser
