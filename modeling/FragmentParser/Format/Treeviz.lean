import FragmentParser.Number.Digits
import FragmentParser.Text.Blank
import FragmentParser.Tree.Basic

/-!
# Tree drawings

A tree drawn with **one line for each element**: an icon for its kind and a label, behind lines that
lead to it from its parent. The label is the title with its number or, where there is no title, the
text; it is cut to a given width. Runs of text have no lines of their own.

```
⧉ body
├─ ⊤ THE TITLE OF A LONG HEADER...
└─ § 1 Introduction
  ├─ ¶ Welcome to the guide
  └─ ☰ decimal, 2 items
    ├─ • 1 first
    └─ • 2 second
```
-/

namespace FragmentParser.Format.Treeviz

open Text

/-- The width of labels unless another one is asked for. -/
def defaultWidth : Nat := 30

/-- The text, or its first `width` characters and three periods. -/
def truncate (width : Nat) (cs : List Char) : List Char :=
  if width < cs.length then cs.take width ++ ['.', '.', '.'] else cs

/-- The icon of a kind of element. -/
def icon (kind : String) : Char :=
  if kind = "body" then '⧉'
  else if kind = "section" ∨ kind = "subsection" ∨ kind = "subsubsection" then '§'
  else if kind = "header" then '⊤'
  else if kind = "paragraph" then '¶'
  else if kind = "preformatted" then '𝒱'
  else if kind = "ordered-list" then '☰'
  else if kind = "list-item" then '•'
  else '○'

/-- A text behind the number of its element, if it has one. -/
def numbered (e : Element) (s : String) : String :=
  match e.attribute? "ordinal" with
  | some ordinal => ordinal ++ " " ++ s
  | none => s

/-- What the label of an element says, before it is trimmed. -/
def caption (e : Element) : String :=
  if e.kind = "ordered-list" then
    (e.attribute? "type").getD "decimal" ++ ", " ++
      decimalText e.elements.length ++ " items"
  else
    match e.attribute? "title" with
    | some title => numbered e title
    | none => numbered e (flow e.text)

/-- The label of an element: its caption, or its kind if the caption is blank. -/
def label (e : Element) : List Char :=
  let caption := (caption e).toList
  if allBlank caption then e.kind.toList else trim caption

/-- The icon and the label of an element, and the end of the line. -/
def head (width : Nat) (e : Element) : List Char :=
  icon e.kind :: ' ' :: (truncate width (label e) ++ ['\n'])

/-- Whether no element follows among the siblings. -/
def isLast (siblings : List Node) : Bool := siblings.all fun n ↦ n.text?.isSome

/-- What leads to an element. -/
def connector (last : Bool) : List Char := if last then ['└', '─'] else ['├', '─']

/-- What leads past an element to those below its parent, on the lines of its own children. -/
def cell (last : Bool) : List Char := if last then [' ', ' '] else ['│', ' ']

/-- The lines of the elements among the nodes, and of all elements inside them, behind a margin. -/
def childrenChars (width : Nat) (margin : List Char) : List Node → List Char
  | [] => []
  | .text _ :: siblings => childrenChars width margin siblings
  | .element kind attributes children :: siblings =>
    let last := isLast siblings
    margin ++ connector last ++ ' ' :: head width ⟨kind, attributes, children⟩ ++
      childrenChars width (margin ++ cell last) children ++ childrenChars width margin siblings

/-- The drawing of a tree with labels of the given width. A run of text by itself is drawn as one
line. -/
def render (width : Nat) : Node → String
  | .text value => String.ofList ('◦' :: ' ' :: (truncate width value.toList ++ ['\n']))
  | .element kind attributes children =>
    String.ofList (head width ⟨kind, attributes, children⟩ ++ childrenChars width [] children)

end FragmentParser.Format.Treeviz
