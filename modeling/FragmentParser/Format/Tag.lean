import FragmentParser.Tree.Basic

/-!
# Tags

A tree written with tags, two spaces of indentation for each level: the kind of an element is the
name of its tag, an element without children closes itself, and an element whose only child is a run
of text keeps the text **on the line of its tags**. Everything else stands on lines of its own.
-/

namespace FragmentParser.Format.Tag

/-- The text with `new` for each `c`. -/
def replaceChar (c : Char) (new : String) (cs : List Char) : List Char :=
  cs.flatMap fun d ↦ if d = c then new.toList else [d]

/-- A text in which no character means markup. The ampersand is the first to be replaced, since what
the others are replaced by has one. -/
def escape (s : String) : List Char :=
  replaceChar '\'' "&apos;" (replaceChar '"' "&quot;" (replaceChar '>' "&gt;"
    (replaceChar '<' "&lt;" (replaceChar '&' "&amp;" s.toList))))

/-- The spaces before what stands at the given depth. -/
def indent (depth : Nat) : List Char := List.replicate (2 * depth) ' '

/-- An attribute, behind a space. -/
def attributeChars (a : String × String) : List Char :=
  ' ' :: (a.1.toList ++ ['=', '"'] ++ escape a.2 ++ ['"'])

/-- The inside of an opening tag. -/
def openTag (kind : String) (attributes : Attributes) : List Char :=
  kind.toList ++ attributes.entries.flatMap attributeChars

/-- A closing tag. -/
def closeTag (kind : String) : List Char := ['<', '/'] ++ kind.toList ++ ['>']

mutual

/-- The lines of a node. -/
def nodeChars (depth : Nat) : Node → List Char
  | .text value => indent depth ++ escape value ++ ['\n']
  | .element kind attributes [] =>
    indent depth ++ '<' :: openTag kind attributes ++ ['/', '>', '\n']
  | .element kind attributes [.text value] =>
    indent depth ++ '<' :: openTag kind attributes ++ '>' :: escape value ++ closeTag kind ++ ['\n']
  | .element kind attributes children =>
    indent depth ++ '<' :: openTag kind attributes ++ ['>', '\n'] ++
      nodesChars (depth + 1) children ++ indent depth ++ closeTag kind ++ ['\n']

/-- The lines of nodes one after another. -/
def nodesChars (depth : Nat) : List Node → List Char
  | [] => []
  | n :: ns => nodeChars depth n ++ nodesChars depth ns

end

/-- The tags of a tree. -/
def render (tree : Node) : String := String.ofList (nodeChars 0 tree)

end FragmentParser.Format.Tag
