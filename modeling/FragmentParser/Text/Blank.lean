/-!
# Blank characters and words

White space is what Unicode calls White_Space: besides the ASCII blanks it has the no-break space,
the spaces of U+2000 to U+200A and the line and paragraph separators, and it has neither the
zero-width space nor the information separators U+001C to U+001F.

On this class rest trimming, the **words** of a text, and `flow`, which sets a text as one line of
its words.
-/

namespace FragmentParser.Text

/-- Whether the character is white space. -/
def isBlank (c : Char) : Bool :=
  (0x09 ≤ c.toNat && c.toNat ≤ 0x0D) || c.toNat = 0x20 || c.toNat = 0x85 || c.toNat = 0xA0 ||
    c.toNat = 0x1680 || (0x2000 ≤ c.toNat && c.toNat ≤ 0x200A) || c.toNat = 0x2028 ||
    c.toNat = 0x2029 || c.toNat = 0x202F || c.toNat = 0x205F || c.toNat = 0x3000

/-- Whether the text has blanks only. -/
def allBlank (cs : List Char) : Bool := cs.all isBlank

/-- The text without the characters in `p` at its end. -/
def dropEndWhile (p : Char → Bool) (cs : List Char) : List Char := (cs.reverse.dropWhile p).reverse

/-- The text without the blanks at its end. -/
def trimEnd (cs : List Char) : List Char := dropEndWhile isBlank cs

/-- The text without the blanks at either end. -/
def trim (cs : List Char) : List Char := trimEnd (cs.dropWhile isBlank)

/-- The maximal runs of characters that are not blank. -/
def words (cs : List Char) : List (List Char) := (cs.splitOnP isBlank).filter (!·.isEmpty)

/-- The words of a text with one space between them. -/
def flow (s : String) : String := String.ofList ([' '].intercalate (words s.toList))

example : flow " a\u00a0b \n c\u200bd " = "a b c\u200bd" := by decide

end FragmentParser.Text
