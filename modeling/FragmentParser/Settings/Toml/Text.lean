import FragmentParser.Number.Digits

/-!
# Texts and blanks of TOML

Blanks, line ends and comments, and the texts in their four kinds of quotes: on one line or on
several, with escapes or without.

Here and in the other modules of TOML, a reader takes the text at which something begins and gives
what it read with the text behind it, or nothing if there is no such thing. Loops are measured by
the length of the text.
-/

namespace FragmentParser.Settings.Toml

/-! ### Blanks and comments -/

/-- Whether the character is a blank of a line. -/
def isSpace (c : Char) : Bool := c = ' ' || c = '\t'

/-- The text without the blanks at its beginning. -/
def skipSpace (cs : List Char) : List Char := cs.dropWhile isSpace

/-- Whether the character may stand in a comment or between quotes as it is. -/
def isPlain (c : Char) : Bool := c = '\t' || (0x20 ≤ c.toNat && c.toNat ≠ 0x7F)

/-- The text behind a line end. -/
def lineEnd : List Char → Option (List Char)
  | '\n' :: cs => some cs
  | '\r' :: '\n' :: cs => some cs
  | _ => none

/-- The text behind the given character. -/
def mark (c : Char) : List Char → Option (List Char)
  | d :: cs => if c = d then some cs else none
  | [] => none

/-- The text without a comment at its beginning. -/
def skipComment : List Char → List Char
  | '#' :: cs => cs.dropWhile isPlain
  | cs => cs

/-- The text behind the rest of a line, which may be blanks and a comment. -/
def restOfLine (cs : List Char) : Option (List Char) :=
  match skipComment (skipSpace cs) with
  | [] => some []
  | cs => lineEnd cs

/-- The text without the blanks, line ends and comments at its beginning, of which there may be
`bound` altogether. -/
def skipLines : (bound : Nat) → List Char → List Char
  | 0, cs => cs
  | bound + 1, cs =>
    match skipSpace cs with
    | '#' :: rest => skipLines bound (skipComment ('#' :: rest))
    | rest =>
      match lineEnd rest with
      | some rest => skipLines bound rest
      | none => rest

/-- The text without all blanks, line ends and comments at its beginning. -/
def skipAll (cs : List Char) : List Char := skipLines (cs.length + 1) cs

/-! ### Texts -/

/-- The character of a number of hexadecimal digits. -/
def codePoint (count : Nat) (cs : List Char) : Option (Char × List Char) := do
  let digits := cs.take count
  let n ← natInBase? 16 digits
  if digits.length = count ∧ n.isValidChar then some (Char.ofNat n, cs.drop count) else none

/-- The character behind a backslash. -/
def escaped : List Char → Option (Char × List Char)
  | 'b' :: cs => some ('\x08', cs)
  | 't' :: cs => some ('\t', cs)
  | 'n' :: cs => some ('\n', cs)
  | 'f' :: cs => some ('\x0c', cs)
  | 'r' :: cs => some ('\r', cs)
  | '"' :: cs => some ('"', cs)
  | '\\' :: cs => some ('\\', cs)
  | 'u' :: cs => codePoint 4 cs
  | 'U' :: cs => codePoint 8 cs
  | _ => none

/-- Put a character in front of a text that was read. -/
def consText (c : Char) (found : Option (List Char × List Char)) :
    Option (List Char × List Char) :=
  found.map fun (text, rest) ↦ (c :: text, rest)

/-- A text of one line behind its quote. With escapes, a backslash begins one. -/
def lineText (quote : Char) (escapes : Bool) :
    (bound : Nat) → List Char → Option (List Char × List Char)
  | 0, _ => none
  | _, [] => none
  | bound + 1, c :: cs =>
    if c = quote then some ([], cs)
    else if escapes ∧ c = '\\' then do
      let (c, rest) ← escaped cs
      consText c (lineText quote escapes bound rest)
    else if isPlain c then consText c (lineText quote escapes bound cs)
    else none

/-- The text without the blanks and line ends at its beginning. -/
def skipBreaks : List Char → List Char
  | [] => []
  | '\r' :: '\n' :: cs => skipBreaks cs
  | c :: cs => if isSpace c || c = '\n' then skipBreaks cs else c :: cs

/-- The text behind the end of a line that a backslash joins to the next one, with the blanks and
line ends that follow. -/
def lineContinuation (cs : List Char) : Option (List Char) :=
  (lineEnd (skipSpace cs)).map skipBreaks

/-- A text of several lines behind its three quotes. Up to two quotes may stand before the three
that end it. -/
def blockText (quote : Char) (escapes : Bool) :
    (bound : Nat) → List Char → Option (List Char × List Char)
  | 0, _ => none
  | _, [] => none
  | bound + 1, c :: cs =>
    let quotes := (c :: cs).takeWhile (· = quote)
    if 3 ≤ quotes.length then
      if quotes.length ≤ 5 then
        some (quotes.drop 3, (c :: cs).drop quotes.length)
      else none
    else if escapes ∧ c = '\\' then
      match lineContinuation cs with
      | some rest => blockText quote escapes bound rest
      | none => do
        let (c, rest) ← escaped cs
        consText c (blockText quote escapes bound rest)
    else
      match lineEnd (c :: cs) with
      | some rest => consText '\n' (blockText quote escapes bound rest)
      | none => if isPlain c then consText c (blockText quote escapes bound cs) else none

/-- A text in any quotes. A line end directly behind three quotes does not count. -/
def quoted (cs : List Char) : Option (String × List Char) :=
  let block (quote : Char) (escapes : Bool) (rest : List Char) : Option (List Char × List Char) :=
    blockText quote escapes (rest.length + 1) ((lineEnd rest).getD rest)
  let found := match cs with
    | '"' :: '"' :: '"' :: rest => block '"' true rest
    | '\'' :: '\'' :: '\'' :: rest => block '\'' false rest
    | '"' :: rest => lineText '"' true (rest.length + 1) rest
    | '\'' :: rest => lineText '\'' false (rest.length + 1) rest
    | _ => none
  found.map fun (text, rest) ↦ (String.ofList text, rest)

end FragmentParser.Settings.Toml
