import FragmentParser.Settings.Toml.Text

/-!
# Dates and times of TOML

A date, a time of the day, or both, with or without the distance from universal time. Each becomes a
**text** in one standard form: a capital T between date and time, and as many places of a second as
are not zeros, up to nine.

A text **spells a moment** if the whole of it is one (`spelledMoment?`).
-/

namespace FragmentParser.Settings.Toml

/-- Exactly `count` digits, with the number they stand for within bounds. -/
def fixedDigits (count low high : Nat) (cs : List Char) : Option (List Char × List Char) :=
  let ds := cs.take count
  let n := natOfDigits ds
  if ds.length = count ∧ ds.all Char.isDigit ∧ low ≤ n ∧ n ≤ high then
    some (ds, cs.drop count)
  else none

/-- How many days a month has. -/
def daysIn (year month : Nat) : Nat :=
  if month = 2 then if (year % 4 = 0 ∧ year % 100 ≠ 0) ∨ year % 400 = 0 then 29 else 28
  else if month ∈ [4, 6, 9, 11] then 30
  else 31

/-- A date. -/
def date (cs : List Char) : Option (List Char × List Char) := do
  let (year, rest) ← fixedDigits 4 0 9999 cs
  let (month, rest) ← fixedDigits 2 1 12 (← mark '-' rest)
  let days := daysIn (natOfDigits year) (natOfDigits month)
  let (day, rest) ← fixedDigits 2 1 days (← mark '-' rest)
  some (year ++ '-' :: month ++ '-' :: day, rest)

/-- A time of the day. Of a second nine places count, without zeros at their end. -/
def time (cs : List Char) : Option (List Char × List Char) := do
  let (hour, rest) ← fixedDigits 2 0 23 cs
  let (minute, rest) ← fixedDigits 2 0 59 (← mark ':' rest)
  let (second, rest) ← fixedDigits 2 0 60 (← mark ':' rest)
  let clock := hour ++ ':' :: minute ++ ':' :: second
  match rest with
  | '.' :: cs =>
    let ds := cs.takeWhile Char.isDigit
    if ds.isEmpty then none
    else
      let places := ((ds.take 9).reverse.dropWhile (· = '0')).reverse
      some (if places.isEmpty then clock else clock ++ '.' :: places, cs.dropWhile Char.isDigit)
  | _ => some (clock, rest)

/-- The distance from universal time behind a time. -/
def offset (cs : List Char) : Option (List Char × List Char) := do
  match cs with
  | [] => none
  | c :: cs =>
    if c = 'Z' ∨ c = 'z' then some (['Z'], cs)
    else if c = '+' ∨ c = '-' then
      let (hour, rest) ← fixedDigits 2 0 23 cs
      let (minute, rest) ← fixedDigits 2 0 59 (← mark ':' rest)
      let zero := natOfDigits hour = 0 ∧ natOfDigits minute = 0
      some ((if zero then '+' else c) :: hour ++ ':' :: minute, rest)
    else none

/-- The time behind a date. -/
def timeAfterDate : List Char → Option (List Char × List Char)
  | c :: cs => if c = 'T' ∨ c = 't' ∨ c = ' ' then time cs else none
  | [] => none

/-- A date, a time of the day, or both, with or without the distance from universal time. -/
def moment (cs : List Char) : Option (String × List Char) :=
  let found : Option (List Char × List Char) :=
    match date cs with
    | some (day, rest) =>
      match timeAfterDate rest with
      | some (clock, rest) =>
        match offset rest with
        | some (zone, rest) => some (day ++ 'T' :: clock ++ zone, rest)
        | none => some (day ++ 'T' :: clock, rest)
      | none => some (day, rest)
    | none => time cs
  found.map fun (text, rest) ↦ (String.ofList text, rest)

/-- The moment that a text spells. -/
def spelledMoment? (s : String) : Option String :=
  match moment s.toList with
  | some (text, []) => some text
  | _ => none

example : spelledMoment? "1979-05-27 07:32:00.50-01:30" = some "1979-05-27T07:32:00.5-01:30" := by
  decide +kernel

example : spelledMoment? "24:00:00" = none ∧ spelledMoment? "07:32:00Z" = none := by decide +kernel

end FragmentParser.Settings.Toml
