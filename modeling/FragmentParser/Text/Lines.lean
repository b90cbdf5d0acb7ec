import FragmentParser.Text.Blank

/-!
# Lines

A line ends at a line feed, and a carriage return just before the line feed belongs to the line
end. A line feed at the end of the text **ends** the last line and starts no further one.
-/

namespace FragmentParser.Text

/-- The line without one carriage return at its end. -/
def dropReturn (line : List Char) : List Char :=
  if line.getLast? = some '\r' then line.dropLast else line

/-- The lines of a text. What follows the last line feed is a line, with a carriage return at its
end if it has one, unless it is empty. -/
def lines (cs : List Char) : List (List Char) :=
  let pieces := cs.splitOn '\n'
  pieces.dropLast.map dropReturn ++ pieces.getLast?.toList.filter (!·.isEmpty)

/-- Lines with a line feed between them. -/
def joinLines (ls : List (List Char)) : List Char := ['\n'].intercalate ls

/-- Whether `part` occurs in the text. -/
def contains (part : List Char) : List Char → Bool
  | [] => part.isEmpty
  | c :: cs => part.isPrefixOf (c :: cs) || contains part cs

example : lines "a\r\n\nb\n".toList = ["a".toList, [], "b".toList] := by decide

example :
    lines "".toList = [] ∧ lines "\n".toList = [[]] ∧ lines "a\r".toList = ["a\r".toList] := by
  decide

end FragmentParser.Text
