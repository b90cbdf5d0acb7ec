import FragmentParser.Text.Blank
import FragmentParser.Text.Digit

/-!
# Numbering

How a chunk shows that it is an item of an ordered list or a heading: by the number it begins with.

* A **list item** is an ordinal, a period or a closing parenthesis, and one or more spaces. The
  ordinal is a run of decimal digits, a run of the letters that Roman numerals up to thirty-nine are
  made of, or one other ASCII letter, and its class decides which list the item belongs to.
* A **heading** is a digit followed by digits and periods, then spaces, then a title. It is one line
  that does not end with a period; a line feed is allowed as its very last character only.

Both are read from the front of the chunk and nothing is ever taken back, except that the spaces of
a heading leave their last one to the title when nothing else is left for it.
-/

namespace FragmentParser.Outline

open Text

/-- The numbering styles of ordered lists. -/
inductive ListStyle where
  /-- Decimal numbers. -/
  | decimal
  /-- Decimal numbers that begin with a zero. -/
  | decimalLeadingZero
  /-- Roman numerals in small letters. -/
  | lowerRoman
  /-- Roman numerals in capital letters. -/
  | upperRoman
  /-- Small letters. -/
  | lowerAlpha
  /-- Capital letters. -/
  | upperAlpha
deriving DecidableEq

/-- The classes of numbering styles; a list holds items of one class. -/
inductive ListClass where
  /-- Decimal numbers. -/
  | decimal
  /-- Roman numerals. -/
  | roman
  /-- Letters. -/
  | alpha
deriving DecidableEq

namespace ListStyle

/-- All styles. -/
def all : List ListStyle :=
  [.decimal, .decimalLeadingZero, .lowerRoman, .upperRoman, .lowerAlpha, .upperAlpha]

/-- The name of a style in a tree. -/
def name : ListStyle → String
  | .decimal => "decimal"
  | .decimalLeadingZero => "decimal-leading-zero"
  | .lowerRoman => "lower-roman"
  | .upperRoman => "upper-roman"
  | .lowerAlpha => "lower-alpha"
  | .upperAlpha => "upper-alpha"

/-- The name of a style in diagnostics. -/
def debugText : ListStyle → String
  | .decimal => "Decimal"
  | .decimalLeadingZero => "DecimalLeadingZero"
  | .lowerRoman => "LowerRoman"
  | .upperRoman => "UpperRoman"
  | .lowerAlpha => "LowerAlpha"
  | .upperAlpha => "UpperAlpha"

/-- The class of a style. -/
def listClass : ListStyle → ListClass
  | .decimal | .decimalLeadingZero => .decimal
  | .lowerRoman | .upperRoman => .roman
  | .lowerAlpha | .upperAlpha => .alpha

end ListStyle

/-- The beginning of a list item, read. -/
structure ListItem where
  /-- The style of its ordinal. -/
  style : ListStyle
  /-- The ordinal, without the mark after it. -/
  ordinal : List Char
  /-- What follows the spaces after the mark. -/
  rest : List Char
deriving DecidableEq

/-- Whether the character is one of the letters of Roman numerals that items use. -/
def isRoman (c : Char) : Bool := c ∈ ['I', 'V', 'X', 'i', 'v', 'x']

/-- What follows a period or parenthesis and at least one space, and all further spaces. -/
def afterMark : List Char → Option (List Char)
  | mark :: ' ' :: cs => if mark = '.' ∨ mark = ')' then some (cs.dropWhile (· = ' ')) else none
  | _ => none

/-- A non-empty run of characters in `p`, and what follows it and its mark. -/
def numeral (p : Char → Bool) (cs : List Char) : Option (List Char × List Char) :=
  let ordinal := cs.takeWhile p
  if ordinal.isEmpty then none
  else (afterMark (cs.dropWhile p)).map fun rest ↦ (ordinal, rest)

/-- One ASCII letter, and what follows it and its mark. -/
def letter : List Char → Option (List Char × List Char)
  | c :: cs => if c.isAlpha then (afterMark cs).map fun rest ↦ ([c], rest) else none
  | [] => none

/-- Whether a text begins with a small ASCII letter. -/
def startsLower (cs : List Char) : Bool := cs.head?.any Char.isLower

/-- Read a chunk as a list item. Decimal numbers come before Roman numerals and these before
letters. -/
def listItem? (cs : List Char) : Option ListItem :=
  match numeral isDigit cs with
  | some (ordinal, rest) =>
    some ⟨if cs.head? = some '0' then .decimalLeadingZero else .decimal, ordinal, rest⟩
  | none =>
    match numeral isRoman cs with
    | some (ordinal, rest) =>
      some ⟨if startsLower cs then .lowerRoman else .upperRoman, ordinal, rest⟩
    | none =>
      (letter cs).map fun (ordinal, rest) ↦
        ⟨if startsLower cs then .lowerAlpha else .upperAlpha, ordinal, rest⟩

/-- The style of a chunk that is a list item. -/
def listStyle? (cs : List Char) : Option ListStyle := (listItem? cs).map ListItem.style

/-- The number and the title of a heading. -/
structure Heading where
  /-- The number, without periods at its end. -/
  ordinal : List Char
  /-- The title, trimmed. -/
  title : List Char
deriving DecidableEq

/-- Whether the character can stand in the number of a heading. -/
def isNumberChar (c : Char) : Bool := c = '.' || isDigit c

/-- Read what follows the number of a heading: at least one space, then a title, which is trimmed.
When there are only spaces, the last of them counts as the title, so there have to be two. -/
def title? (cs : List Char) : Option (List Char) :=
  let spaces := cs.takeWhile (· = ' ')
  let title := cs.dropWhile (· = ' ')
  if title.isEmpty then
    if 2 ≤ spaces.length then some [] else none
  else if 1 ≤ spaces.length ∧ title.getLast? ≠ some '.' ∧ '\n' ∉ title.dropLast then
    some (trim title)
  else none

/-- Read a chunk as a heading. -/
def heading? (cs : List Char) : Option Heading :=
  if cs.head?.any isDigit then
    (title? (cs.dropWhile isNumberChar)).map fun title ↦
      ⟨dropEndWhile (· = '.') (cs.takeWhile isNumberChar), title⟩
  else none

/-- How many parts a heading's number has. -/
def Heading.depth (h : Heading) : Nat := ((h.ordinal.splitOn '.').filter (!·.isEmpty)).length

/-- The depth of a chunk that is a heading. -/
def sectionDepth? (cs : List Char) : Option Nat := (heading? cs).map Heading.depth

end FragmentParser.Outline
