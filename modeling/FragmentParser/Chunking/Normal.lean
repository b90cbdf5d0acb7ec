/-!
# Normal text

Before a text is cut, its line ends are made line feeds and its tabs are made spaces. A tab reaches
to the next **tab stop**, every eighth column, where a column is a character of the line that is
being written.
-/

namespace FragmentParser.Chunking

/-- A carriage return, or one with its line feed, becomes a line feed. -/
def unifyLineEnds : List Char → List Char
  | '\r' :: '\n' :: cs => '\n' :: unifyLineEnds cs
  | '\r' :: cs => '\n' :: unifyLineEnds cs
  | c :: cs => c :: unifyLineEnds cs
  | [] => []

/-- The distance between tab stops. -/
def tabWidth : Nat := 8

/-- Replace tabs by spaces in a text that begins at the given column of its line. -/
def expandTabs (column : Nat) : List Char → List Char
  | [] => []
  | c :: cs =>
    if c = '\t' then
      let width := tabWidth - column % tabWidth
      List.replicate width ' ' ++ expandTabs (column + width) cs
    else if c = '\n' then '\n' :: expandTabs 0 cs
    else c :: expandTabs (column + 1) cs

/-- The text with line feeds as line ends and without tabs. -/
def normalChars (cs : List Char) : List Char := expandTabs 0 (unifyLineEnds cs)

/-- The text with line feeds as line ends and without tabs. -/
def normalize (s : String) : String := String.ofList (normalChars s.toList)

example : normalize "ab\tx\r\r\n\ty" = "ab      x\n\n        y" := by decide +kernel

end FragmentParser.Chunking
