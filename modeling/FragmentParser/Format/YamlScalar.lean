import FragmentParser.Number.Decimal
import FragmentParser.Text.Lines

/-!
# YAML scalars

A text is written in the simplest of four styles that gives it back: **plain**, single-quoted,
double-quoted, or, for a text of several lines, as a **literal** block. Plain is out of the question
when the text would be read as something else (a number, a truth value, nothing), when it begins
with a character that means something in YAML, or has a colon or number sign where they do.

Characters that are not printable in YAML need the escapes of double quotes; everything else can
stand between single quotes as it is.
-/

namespace FragmentParser.Format.Yaml

/-! ### Texts that would be read as something else -/

/-- The text without one plus sign at its beginning. -/
def dropPlus : List Char → List Char
  | '+' :: cs => cs
  | cs => cs

/-- A number in hexadecimal, octal or binary digits, behind the mark of its base, that fits in 128
bits. -/
def isBasedNumber (cs : List Char) : Bool :=
  let based (limit : Nat) : List Char → Bool
    | '0' :: 'x' :: ds => (natInBase? 16 ds).any (· < limit)
    | '0' :: 'o' :: ds => (natInBase? 8 ds).any (· < limit)
    | '0' :: 'b' :: ds => (natInBase? 2 ds).any (· < limit)
    | _ => false
  match cs with
  | '-' :: rest => based (Nat.pow 2 127 + 1) rest
  | _ => based (Nat.pow 2 128) (dropPlus cs)

/-- The exponent at the end of a number: nothing, or an `e` and digits, which may have a sign. -/
def exponent? : List Char → Option Int
  | [] => some 0
  | e :: cs =>
    if e = 'e' ∨ e = 'E' then
      match cs with
      | '-' :: ds => (natInBase? 10 ds).map fun n ↦ -(n : Int)
      | _ => (natInBase? 10 (dropPlus cs)).map fun n ↦ (n : Int)
    else none

/-- The number that decimal digits with a point and an exponent spell; all parts but one digit may
be missing. -/
def decimal? (cs : List Char) : Option Decimal :=
  let (negative, cs) := match cs with
    | '-' :: rest => (true, rest)
    | _ => (false, dropPlus cs)
  let whole := cs.takeWhile Char.isDigit
  let afterWhole := cs.dropWhile Char.isDigit
  let (fraction, rest) := match afterWhole with
    | '.' :: ds => (ds.takeWhile Char.isDigit, ds.dropWhile Char.isDigit)
    | _ => ([], afterWhole)
  if whole.isEmpty ∧ fraction.isEmpty then none
  else (exponent? rest).map fun e ↦ Decimal.ofParts negative whole fraction e

/-- Digits that begin with a zero, which some readers take for a number. -/
def isZeroLed (cs : List Char) : Bool :=
  let ds := match cs with
    | '-' :: rest | '+' :: rest => rest
    | _ => cs
  match ds with
  | '0' :: _ :: _ => ds.all Char.isDigit
  | _ => false

/-- The words that stand for nothing, for truth values and for numbers that are none. -/
def reservedWords : List String :=
  ["", "null", "Null", "NULL", "~", "true", "True", "TRUE", "false", "False", "FALSE",
    ".inf", ".Inf", ".INF", "+.inf", "+.Inf", "+.INF", "-.inf", "-.Inf", "-.INF",
    ".nan", ".NaN", ".NAN"]

/-- Whether the text would be read as something that is no text. -/
def isAmbiguous (s : String) : Bool :=
  let cs := s.toList
  s ∈ reservedWords || isBasedNumber cs || isZeroLed cs || (decimal? cs).any (!·.overflows)

/-! ### What the characters of a text allow -/

/-- Whether the character ends a line in YAML. -/
def isBreak (c : Char) : Bool :=
  c = '\n' || c = '\r' || c = '\u0085' || c = '\u2028' || c = '\u2029'

/-- Whether YAML prints the character as it is. -/
def isPrintable (c : Char) : Bool :=
  let n := c.toNat
  n = 0x0A || (0x20 ≤ n && n ≤ 0x7E) ||
    (0xA0 ≤ n && n ≠ 0xFEFF && n ≠ 0xFFFE && n ≠ 0xFFFF)

/-- Whether a character, or the end of the text, separates what is around it. -/
def isSeparator : Option Char → Bool
  | none => true
  | some c => c = ' ' || c = '\t' || c = '\x00' || isBreak c

/-- The characters that mean something at the beginning of a plain text. -/
def leadingIndicators : List Char :=
  ['#', ',', '[', ']', '\x7b', '\x7d', '&', '*', '!', '|', '>', '\'', '"', '%', '@', '\x60']

/-- Whether the first character of a text means something there, given the one after it. -/
def leadingIndicator (c : Char) (next : Option Char) : Bool :=
  c ∈ leadingIndicators || (c ∈ ['?', ':', '-'] && isSeparator next)

/-- Whether a colon or number sign means something inside a text, behind the character `before`. -/
def innerIndicator (before : Char) : List Char → Bool
  | [] => false
  | c :: cs =>
    (c = ':' && isSeparator cs.head?) || (c = '#' && isSeparator (some before)) ||
      innerIndicator c cs

/-- Whether a text has an indicator, so that it cannot be plain. -/
def hasIndicator : List Char → Bool
  | [] => false
  | c :: cs =>
    ['-', '-', '-'].isPrefixOf (c :: cs) || ['.', '.', '.'].isPrefixOf (c :: cs) ||
      leadingIndicator c cs.head? || innerIndicator c cs

/-- Whether a character of the first class is directly followed by one of the second. -/
def hasPair (p q : Char → Bool) : List Char → Bool
  | c :: d :: cs => (p c && q d) || hasPair p q (d :: cs)
  | _ => false

/-- Whether the character is the space itself. -/
def isSpace (c : Char) : Bool := c = ' '

/-- Whether a text has a character that only double quotes can show. -/
def hasUnprintable (cs : List Char) : Bool := cs.any (!isPrintable ·)

/-- Whether the text may be written plain. -/
def plainAllowed (cs : List Char) : Bool :=
  !(hasIndicator cs || hasUnprintable cs || cs.any isBreak || cs.head?.any isSpace ||
    cs.getLast?.any isSpace)

/-- Whether the text may be written between single quotes. -/
def singleQuotedAllowed (cs : List Char) : Bool :=
  !(hasUnprintable cs || hasPair isBreak isSpace cs || hasPair isSpace isBreak cs)

/-- Whether the text may be written as a literal block. -/
def literalAllowed (cs : List Char) : Bool :=
  !(hasUnprintable cs || hasPair isSpace isBreak cs || cs.getLast?.any isSpace)

/-- The styles of scalars. -/
inductive Style where
  /-- As it is. -/
  | plain
  /-- Between single quotes. -/
  | singleQuoted
  /-- Between double quotes, with escapes. -/
  | doubleQuoted
  /-- Line by line, behind a header. -/
  | literal
deriving DecidableEq

/-- The style of a text. -/
def styleOf (s : String) : Style :=
  let cs := s.toList
  if '\n' ∈ cs then if literalAllowed cs then .literal else .doubleQuoted
  else if !isAmbiguous s && plainAllowed cs then .plain
  else if singleQuotedAllowed cs then .singleQuoted
  else .doubleQuoted

/-! ### Writing -/

/-- The spaces at the beginning of a line. -/
def indentation (indent : Nat) : List Char := List.replicate indent ' '

/-- One character between double quotes. -/
def escapeChar (c : Char) : List Char :=
  let hex (width : Nat) : List Char :=
    let ds := (Nat.toDigits 16 c.toNat).map Char.toUpper
    List.replicate (width - ds.length) '0' ++ ds
  match c with
  | '\x00' => ['\\', '0']
  | '\x07' => ['\\', 'a']
  | '\x08' => ['\\', 'b']
  | '\t' => ['\\', 't']
  | '\n' => ['\\', 'n']
  | '\x0b' => ['\\', 'v']
  | '\x0c' => ['\\', 'f']
  | '\r' => ['\\', 'r']
  | '\x1b' => ['\\', 'e']
  | '"' => ['\\', '"']
  | '\\' => ['\\', '\\']
  | '\u0085' => ['\\', 'N']
  | '\u2028' => ['\\', 'L']
  | '\u2029' => ['\\', 'P']
  | c =>
    if isPrintable c then [c]
    else if c.toNat ≤ 0xFF then '\\' :: 'x' :: hex 2
    else if c.toNat ≤ 0xFFFF then '\\' :: 'u' :: hex 4
    else '\\' :: 'U' :: hex 8

/-- The inside of single quotes: a quote is doubled, and the line after a break is indented.
`fresh` says that a break has just been written. -/
def singleQuotedChars (indent : Nat) (fresh : Bool) : List Char → List Char
  | [] => if fresh then indentation indent else []
  | c :: cs =>
    if isBreak c then c :: singleQuotedChars indent true cs
    else
      (if fresh then indentation indent else []) ++ (if c = '\'' then ['\'', '\''] else [c]) ++
        singleQuotedChars indent false cs

/-- The lines of a literal block, each indented unless it is empty. -/
def literalChars (indent : Nat) (fresh : Bool) : List Char → List Char
  | [] => []
  | c :: cs =>
    if isBreak c then c :: literalChars indent true cs
    else (if fresh then indentation indent else []) ++ c :: literalChars indent false cs

/-- The header of a literal block: the width of the indentation if the text begins with a space or
break, then what becomes of the breaks at the end: a minus if there is none, a plus if there are
several or nothing else. -/
def literalHeader (cs : List Char) : List Char :=
  let hint := if cs.head?.any fun c ↦ isSpace c || isBreak c then ['2'] else []
  let chomping := match cs.reverse with
    | [] => ['-']
    | last :: before =>
      if !isBreak last then ['-']
      else match before with
        | [] => ['+']
        | c :: _ => if isBreak c then ['+'] else []
  '|' :: (hint ++ chomping)

/-- A text that stands on one line, without the end of that line. A literal block has its header
here. -/
def inlineChars (indent : Nat) (s : String) : List Char :=
  let cs := s.toList
  match styleOf s with
  | .plain => cs
  | .singleQuoted => '\'' :: (singleQuotedChars indent false cs ++ ['\''])
  | .doubleQuoted => '"' :: (cs.flatMap escapeChar ++ ['"'])
  | .literal => literalHeader cs

/-- A text up to and including the end of its last line; lines after the first are indented. -/
def scalarChars (indent : Nat) (s : String) : List Char :=
  let cs := s.toList
  let body := match styleOf s with
    | .literal => '\n' :: literalChars indent true cs
    | _ => []
  let ended := styleOf s = .literal && cs.getLast?.any isBreak
  inlineChars indent s ++ body ++ if ended then [] else ['\n']

end FragmentParser.Format.Yaml
