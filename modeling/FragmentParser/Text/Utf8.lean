/-!
# Bytes as text

`Text.ofBytes` reads bytes as UTF-8 and never fails: what is no character becomes the **replacement
character**, once for each run of bytes that begins a character and is not continued.
-/

namespace FragmentParser.Text

/-- The replacement character. -/
def replacement : Char := '\ufffd'

/-- A character that has begun: the number its bytes spell so far, how many bytes are missing, and
the bounds of the next one. -/
structure Begun where
  /-- The number so far. -/
  value : Nat
  /-- How many bytes are missing behind the next one. -/
  missing : Nat
  /-- The smallest that the next byte can be. -/
  low : Nat := 0x80
  /-- The largest that the next byte can be. -/
  high : Nat := 0xBF

/-- A byte that begins a character: the character that it already is, or what has begun. A byte that
can begin none gives the replacement character. -/
def beginChar (b : Nat) : List Char × Option Begun :=
  if b < 0x80 then ([Char.ofNat b], none)
  else if 0xC2 ≤ b ∧ b ≤ 0xDF then ([], some { value := b - 0xC0, missing := 0 })
  else if b = 0xE0 then ([], some { value := 0, missing := 1, low := 0xA0 })
  else if b = 0xED then ([], some { value := 0xD, missing := 1, high := 0x9F })
  else if 0xE1 ≤ b ∧ b ≤ 0xEF then ([], some { value := b - 0xE0, missing := 1 })
  else if b = 0xF0 then ([], some { value := 0, missing := 2, low := 0x90 })
  else if b = 0xF4 then ([], some { value := 4, missing := 2, high := 0x8F })
  else if 0xF1 ≤ b ∧ b ≤ 0xF3 then ([], some { value := b - 0xF0, missing := 2 })
  else ([replacement], none)

/-- A byte behind what has begun: the characters that come to be by it, and what has begun then. -/
def nextByte (begun : Option Begun) (b : Nat) : List Char × Option Begun :=
  match begun with
  | none => beginChar b
  | some p =>
    if p.low ≤ b ∧ b ≤ p.high then
      let value := 64 * p.value + (b - 0x80)
      match p.missing with
      | 0 => ([Char.ofNat value], none)
      | missing + 1 => ([], some { value := value, missing := missing })
    else
      let (cs, begun) := beginChar b
      (replacement :: cs, begun)

/-- The characters of bytes behind what has begun. -/
def charsOfBytes : Option Begun → List UInt8 → List Char
  | none, [] => []
  | some _, [] => [replacement]
  | begun, b :: rest =>
    let (cs, begun) := nextByte begun b.toNat
    cs ++ charsOfBytes begun rest

/-- The text of bytes. -/
def ofBytes (bytes : ByteArray) : String := String.ofList (charsOfBytes none bytes.toList)

example : charsOfBytes none [0x61, 0xE2, 0x82, 0xAC, 0xE2, 0x82, 0x62, 0xFF] =
    ['a', '€', replacement, 'b', replacement] := by decide +kernel

end FragmentParser.Text
