import FragmentParser.Json.Basic

/-!
# Reading JSON

The reader accepts one value with blanks around it. It refuses values that **nest more than 127
levels**, numbers whose floating-point estimate is an infinity, and texts that spell half of a
surrogate pair.

A text is refused for one of two reasons: it **ends too soon**, or it has something that cannot
stand where it stands. The nesting limit is the measure of the recursion into values, and the length
of the text that of the loops over items and fields: a loop whose measure is used up is at the end
of the text.
-/

namespace FragmentParser.Json

/-- Why a text is not JSON. -/
inductive Fault where
  /-- The text ends where something has to follow. -/
  | endOfText
  /-- Something stands where it cannot. -/
  | syntaxFault
deriving DecidableEq

namespace Reader

/-- How deep arrays and objects may nest. -/
def maxNesting : Nat := 127

/-- Whether the character may stand between tokens. -/
def isSpace (c : Char) : Bool := c = ' ' || c = '\n' || c = '\t' || c = '\r'

/-- The text without the blanks at its beginning. -/
def skipSpace (cs : List Char) : List Char := cs.dropWhile isSpace

/-- Read the given characters. -/
def expect : List Char → List Char → Except Fault (List Char)
  | [], cs => .ok cs
  | _ :: _, [] => .error .endOfText
  | w :: ws, c :: cs => if w = c then expect ws cs else .error .syntaxFault

/-! ### Numbers -/

/-- A run of digits, which must not be empty. -/
def digits (cs : List Char) : Except Fault (List Char × List Char) :=
  match cs with
  | [] => .error .endOfText
  | c :: _ =>
    if c.isDigit then .ok (cs.takeWhile Char.isDigit, cs.dropWhile Char.isDigit)
    else .error .syntaxFault

/-- The whole part of a number: zero, or digits that do not begin with one. -/
def wholePart (cs : List Char) : Except Fault (List Char × List Char) := do
  let (whole, rest) ← digits cs
  if whole.head? = some '0' ∧ whole.length ≠ 1 then .error .syntaxFault else .ok (whole, rest)

/-- The digits after a point, if there is a point. -/
def fractionPart : List Char → Except Fault (List Char × List Char)
  | '.' :: cs => digits cs
  | cs => .ok ([], cs)

/-- The exponent, if there is one. -/
def exponentPart : List Char → Except Fault (Option Int × List Char)
  | [] => .ok (none, [])
  | c :: cs =>
    if c = 'e' ∨ c = 'E' then do
      let (negative, cs) := match cs with
        | '+' :: cs => (false, cs)
        | '-' :: cs => (true, cs)
        | cs => (false, cs)
      let (ds, rest) ← digits cs
      let n : Int := natOfDigits ds
      .ok (some (if negative then -n else n), rest)
    else .ok (none, c :: cs)

/-- Read a number that has, or has not, had a minus sign. -/
def number (negative : Bool) (cs : List Char) : Except Fault (Json × List Char) := do
  let (whole, rest) ← wholePart cs
  let (fraction, rest) ← fractionPart rest
  let (exponent, rest) ← exponentPart rest
  let n : Numeral := ⟨negative, whole, fraction, exponent⟩
  if n.toDouble.isInfinite then .error .syntaxFault else .ok (.number n, rest)

/-! ### Texts -/

/-- Read the four digits of a code unit. If fewer than four bytes are left, the text has ended. -/
def codeUnit (cs : List Char) : Except Fault (Nat × List Char) :=
  if (String.ofList (cs.take 4)).utf8ByteSize < 4 then .error .endOfText
  else
    match cs with
    | a :: b :: c :: d :: rest =>
      match hexValue? a, hexValue? b, hexValue? c, hexValue? d with
      | some a, some b, some c, some d => .ok (((a * 16 + b) * 16 + c) * 16 + d, rest)
      | _, _, _, _ => .error .syntaxFault
    | _ => .error .syntaxFault

/-- Whether a code unit is the first half of a surrogate pair. -/
def isLeading (n : Nat) : Bool := 0xD800 ≤ n && n ≤ 0xDBFF

/-- Whether a code unit is the second half of a surrogate pair. -/
def isTrailing (n : Nat) : Bool := 0xDC00 ≤ n && n ≤ 0xDFFF

/-- Read a character that is spelled by code units. -/
def codePoint (cs : List Char) : Except Fault (Char × List Char) := do
  let (n, rest) ← codeUnit cs
  if isTrailing n then .error .syntaxFault
  else if isLeading n then do
    let rest ← expect ['\\', 'u'] rest
    let (m, rest) ← codeUnit rest
    if isTrailing m then
      .ok (Char.ofNat (0x10000 + (n - 0xD800) * 0x400 + (m - 0xDC00)), rest)
    else .error .syntaxFault
  else .ok (Char.ofNat n, rest)

/-- Read what follows a backslash. -/
def escaped : List Char → Except Fault (Char × List Char)
  | [] => .error .endOfText
  | c :: cs =>
    match c with
    | '"' | '\\' | '/' => .ok (c, cs)
    | 'b' => .ok ('\x08', cs)
    | 'f' => .ok ('\x0c', cs)
    | 'n' => .ok ('\n', cs)
    | 'r' => .ok ('\r', cs)
    | 't' => .ok ('\t', cs)
    | 'u' => codePoint cs
    | _ => .error .syntaxFault

/-- Read a text behind its opening quote, in at most `bound` characters. -/
def textChars : (bound : Nat) → List Char → Except Fault (List Char × List Char)
  | 0, _ => .error .endOfText
  | bound + 1, cs =>
    match cs with
    | [] => .error .endOfText
    | '"' :: rest => .ok ([], rest)
    | '\\' :: rest => do
      let (c, rest) ← escaped rest
      let (text, rest) ← textChars bound rest
      .ok (c :: text, rest)
    | c :: rest =>
      if c.toNat < 0x20 then .error .syntaxFault
      else do
        let (text, rest) ← textChars bound rest
        .ok (c :: text, rest)

/-- Read a text behind its opening quote. -/
def quoted (cs : List Char) : Except Fault (String × List Char) := do
  let (text, rest) ← textChars (cs.length + 1) cs
  .ok (String.ofList text, rest)

/-! ### Values -/

/-- Read the items of an array behind its bracket or behind an item, given how a value is read. -/
def items (value : List Char → Except Fault (Json × List Char)) (first : Bool) :
    (bound : Nat) → List Char →
    Except Fault (List Json × List Char)
  | 0, _ => .error .endOfText
  | bound + 1, cs =>
    match skipSpace cs with
    | [] => .error .endOfText
    | ']' :: rest => .ok ([], rest)
    | c :: rest =>
      if first then do
        let (item, rest) ← value (c :: rest)
        let (others, rest) ← items value false bound rest
        .ok (item :: others, rest)
      else if c = ',' then do
        let (item, rest) ← value rest
        let (others, rest) ← items value false bound rest
        .ok (item :: others, rest)
      else .error .syntaxFault

/-- Read one field of an object, given how a value is read. -/
def field (value : List Char → Except Fault (Json × List Char)) (cs : List Char) :
    Except Fault ((String × Json) × List Char) :=
  match skipSpace cs with
  | [] => .error .endOfText
  | '"' :: rest => do
    let (name, rest) ← quoted rest
    match skipSpace rest with
    | [] => .error .endOfText
    | ':' :: rest => do
      let (v, rest) ← value rest
      .ok ((name, v), rest)
    | _ => .error .syntaxFault
  | _ => .error .syntaxFault

/-- Read the fields of an object behind its brace or behind a field, given how a value is read. -/
def fields (value : List Char → Except Fault (Json × List Char)) (first : Bool) :
    (bound : Nat) → List Char →
    Except Fault (List (String × Json) × List Char)
  | 0, _ => .error .endOfText
  | bound + 1, cs =>
    match skipSpace cs with
    | [] => .error .endOfText
    | '\x7d' :: rest => .ok ([], rest)
    | c :: rest =>
      if first then do
        let (f, rest) ← field value (c :: rest)
        let (others, rest) ← fields value false bound rest
        .ok (f :: others, rest)
      else if c = ',' then do
        let (f, rest) ← field value rest
        let (others, rest) ← fields value false bound rest
        .ok (f :: others, rest)
      else .error .syntaxFault

/-- Read a value in which arrays and objects nest at most `nesting` deep. -/
def value (nesting : Nat) (cs : List Char) : Except Fault (Json × List Char) :=
  match skipSpace cs with
  | [] => .error .endOfText
  | c :: rest =>
    match c with
    | 'n' => do
      let rest ← expect "ull".toList rest
      .ok (.null, rest)
    | 't' => do
      let rest ← expect "rue".toList rest
      .ok (.bool true, rest)
    | 'f' => do
      let rest ← expect "alse".toList rest
      .ok (.bool false, rest)
    | '"' => do
      let (text, rest) ← quoted rest
      .ok (.string text, rest)
    | '-' => number true rest
    | '[' =>
      match nesting with
      | 0 => .error .syntaxFault
      | nesting + 1 => do
        let (is, rest) ← items (value nesting) true (rest.length + 1) rest
        .ok (.array is, rest)
    | '\x7b' =>
      match nesting with
      | 0 => .error .syntaxFault
      | nesting + 1 => do
        let (fs, rest) ← fields (value nesting) true (rest.length + 1) rest
        .ok (.object fs, rest)
    | c => if c.isDigit then number false (c :: rest) else .error .syntaxFault
termination_by structural nesting

/-- Read a value at the beginning of a text. -/
def read (s : String) : Except Fault (Json × List Char) := value maxNesting s.toList

end Reader

end FragmentParser.Json
