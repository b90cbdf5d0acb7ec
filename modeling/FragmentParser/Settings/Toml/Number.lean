import FragmentParser.Settings.Toml.Text
import FragmentParser.Settings.Value

/-!
# Numbers of TOML

Whole numbers in four bases, which have to fit in 64 bits, and floating-point numbers. An underscore
may stand between two digits.
-/

namespace FragmentParser.Settings.Toml

/-- A run of characters in `p`, between two of which there may be an underscore: the characters
alone, and the text behind the run. The run is not empty. -/
def digitRun (p : Char → Bool) : (bound : Nat) → List Char → Option (List Char × List Char)
  | 0, _ => none
  | _, [] => none
  | bound + 1, c :: cs =>
    if p c then
      match cs with
      | '_' :: rest => consText c (digitRun p bound rest)
      | d :: rest =>
        if p d then consText c (digitRun p bound (d :: rest)) else some ([c], d :: rest)
      | [] => some ([c], [])
    else none

/-- A run of digits, which underscores may divide. -/
def digits (p : Char → Bool) (cs : List Char) : Option (List Char × List Char) :=
  digitRun p (cs.length + 1) cs

/-- The sign at the beginning of a number. -/
def sign : List Char → Bool × List Char
  | '+' :: cs => (false, cs)
  | '-' :: cs => (true, cs)
  | cs => (false, cs)

/-- Digits of a whole number: zero, or a run that does not begin with zero. -/
def wholeDigits (cs : List Char) : Option (List Char × List Char) := do
  let (ds, rest) ← digits Char.isDigit cs
  if ds.head? = some '0' ∧ ds.length ≠ 1 then none else some (ds, rest)

/-- A whole number, if it fits in 64 bits. -/
def wholeNumber (negative : Bool) (n : Nat) : Option Setting :=
  let value : Int := if negative then -n else n
  if -0x8000000000000000 ≤ value ∧ value ≤ 0x7FFFFFFFFFFFFFFF then some (.int value) else none

/-- A whole number with the mark of its base. -/
def basedNumber (base : Nat) (cs : List Char) : Option (Setting × List Char) := do
  let (ds, rest) ← digits (fun c ↦ (natInBase? base [c]).isSome) cs
  some (← wholeNumber false (← natInBase? base ds), rest)

/-- The exponent of a floating-point number, if there is one. -/
def exponent : List Char → Option (Option Int × List Char)
  | [] => some (none, [])
  | c :: cs =>
    if c = 'e' ∨ c = 'E' then do
      let (negative, cs) := sign cs
      let (ds, rest) ← digits Char.isDigit cs
      let n : Int := natOfDigits ds
      some (some (if negative then -n else n), rest)
    else some (none, c :: cs)

/-- A number in decimal digits. A number that is too large is none, but one below all numbers is
minus infinity. -/
def decimalNumber (cs : List Char) : Option (Setting × List Char) := do
  let (negative, cs) := sign cs
  let (whole, rest) ← wholeDigits cs
  let (fraction, rest) ← match rest with
    | '.' :: cs => (digits Char.isDigit cs).map fun (ds, rest) ↦ (some ds, rest)
    | rest => some (none, rest)
  let (power, rest) ← exponent rest
  match fraction, power with
  | none, none => some (← wholeNumber negative (natOfDigits whole), rest)
  | _, _ =>
    let d := Decimal.ofParts negative whole (fraction.getD []) (power.getD 0)
    if d.overflows ∧ ¬negative then none else some (.double (.ofDecimal d), rest)

/-- A number that is spelled by a word, behind its sign. -/
def wordNumber (cs : List Char) : Option (Setting × List Char) :=
  match sign cs with
  | (negative, 'i' :: 'n' :: 'f' :: rest) => some (.double (.infinite negative), rest)
  | (_, 'n' :: 'a' :: 'n' :: rest) => some (.double .nan, rest)
  | _ => none

/-- A number of any form. -/
def number (cs : List Char) : Option (Setting × List Char) :=
  match cs with
  | '0' :: 'x' :: rest => basedNumber 16 rest
  | '0' :: 'o' :: rest => basedNumber 8 rest
  | '0' :: 'b' :: rest => basedNumber 2 rest
  | _ => (wordNumber cs).orElse fun _ ↦ decimalNumber cs

end FragmentParser.Settings.Toml
