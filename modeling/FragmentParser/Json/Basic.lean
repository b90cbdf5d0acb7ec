import FragmentParser.Number.Estimate

/-!
# JSON values and their printed form

The values of JSON, with the fields of an object in their order and numbers by their digits.
`Json.render` prints a value over several lines: every item and every field on a line of its own,
two spaces further in than the bracket around it.
-/

namespace FragmentParser

/-- A number in decimal digits. -/
structure Json.Numeral where
  /-- Whether it has a minus sign. -/
  negative : Bool
  /-- The digits before its point. -/
  whole : List Char
  /-- The digits after its point, if it has one. -/
  fraction : List Char
  /-- Its exponent, if it has one. -/
  exponent : Option Int
deriving DecidableEq

namespace Json.Numeral

/-- The floating-point number that the number is read as. -/
def toDouble (n : Numeral) : Double :=
  (Decimal.ofLeading n.negative n.whole n.fraction (n.exponent.getD 0)).estimate

/-- The number printed. -/
def chars (n : Numeral) : List Char :=
  let fraction := if n.fraction.isEmpty then [] else '.' :: n.fraction
  let exponent := match n.exponent with
    | none => []
    | some e => 'e' :: ((if e < 0 then ['-'] else []) ++ (decimalText e.natAbs).toList)
  (if n.negative then ['-'] else []) ++ n.whole ++ fraction ++ exponent

end Json.Numeral

/-- A JSON value. -/
inductive Json where
  /-- The value `null`. -/
  | null
  /-- A truth value. -/
  | bool (value : Bool)
  /-- A number. -/
  | number (value : Json.Numeral)
  /-- A text. -/
  | string (value : String)
  /-- A list of values. -/
  | array (items : List Json)
  /-- Fields in order; a name may occur more than once. -/
  | object (fields : List (String × Json))

instance : Inhabited Json := ⟨.null⟩

namespace Json

/-- One character inside quotes: the quote, the backslash and the control characters are escaped. -/
def escapeChar (c : Char) : List Char :=
  match c with
  | '"' => ['\\', '"']
  | '\\' => ['\\', '\\']
  | '\x08' => ['\\', 'b']
  | '\x0c' => ['\\', 'f']
  | '\n' => ['\\', 'n']
  | '\r' => ['\\', 'r']
  | '\t' => ['\\', 't']
  | c =>
    if c.toNat < 0x20 then
      ['\\', 'u', '0', '0', (c.toNat / 16).digitChar, (c.toNat % 16).digitChar]
    else [c]

/-- A text between quotes. -/
def quoteChars (s : String) : List Char := '"' :: (s.toList.flatMap escapeChar ++ ['"'])

/-- A new line with `depth` levels of indentation. -/
def newline (depth : Nat) : List Char := '\n' :: List.replicate (2 * depth) ' '

mutual

/-- A value printed at `depth` levels of indentation. -/
def renderChars (depth : Nat) : Json → List Char
  | .null => "null".toList
  | .bool true => "true".toList
  | .bool false => "false".toList
  | .number value => value.chars
  | .string value => quoteChars value
  | .array [] => "[]".toList
  | .array (item :: items) =>
    '[' :: (newline (depth + 1) ++ renderChars (depth + 1) item ++
      renderItems (depth + 1) items ++ newline depth ++ [']'])
  | .object [] => ['\x7b', '\x7d']
  | .object ((name, value) :: fields) =>
    '\x7b' :: (newline (depth + 1) ++ quoteChars name ++ [':', ' '] ++
      renderChars (depth + 1) value ++ renderFields (depth + 1) fields ++ newline depth ++ ['\x7d'])

/-- The items after the first, each behind a comma. -/
def renderItems (depth : Nat) : List Json → List Char
  | [] => []
  | item :: items => ',' :: (newline depth ++ renderChars depth item ++ renderItems depth items)

/-- The fields after the first, each behind a comma. -/
def renderFields (depth : Nat) : List (String × Json) → List Char
  | [] => []
  | (name, value) :: fields =>
    ',' :: (newline depth ++ quoteChars name ++ [':', ' '] ++ renderChars depth value ++
      renderFields depth fields)

end

/-- The printed form of a value. -/
def render (j : Json) : String := String.ofList (renderChars 0 j)

end Json

end FragmentParser
