import FragmentParser.Outline.Table
import FragmentParser.Parser
import FragmentParser.Tree.Basic

/-!
# The constructors of the outline grammar

What each constructor of the table builds. All of them take the chunk that was recognized for them
first, except for the body, which is the root, and for lists, which only look at it: the chunk
belongs to the **first item**, and a list builds that item itself before it looks for further ones.
-/

namespace FragmentParser.Outline

open Text

/-- The recipes of outline constructors. -/
abbrev Work (α : Type) : Type := Recipe Maker String State Symbol Node α

/-- The type of parents as traces show it. -/
def elementParent : String := "Element"

/-- An element with the chunk's words as its text. -/
def flowElement (e : Element) (chunk : String) : Node := (e.withText (flow chunk)).toNode

/-- The element of a heading, which what follows goes into. -/
def headingElement (kind chunk : String) : Element :=
  let ⟨ordinal, title⟩ := (heading? chunk.toList).getD ⟨[], chunk.toList⟩
  Element.ofKind kind
    |>.withAttribute "ordinal" (String.ofList ordinal)
    |>.withAttribute "title" (String.ofList title)

/-- The element of a list that begins with the chunk, and takes its style. -/
def listElement (chunk : Option String) : Except ParseError Element :=
  match chunk.bind fun chunk ↦ listStyle? chunk.toList with
  | none => .error (.construct "make_ordered_list" "expected a list item")
  | some style => .ok ((Element.ofKind "ordered-list").withAttribute "type" style.name)

/-- The element of a list item, which the lists inside it go into. -/
def itemElement (chunk : String) : Element :=
  let item := Element.ofKind "list-item"
  match listItem? chunk.toList with
  | some ⟨_, ordinal, rest⟩ =>
    (item.withAttribute "ordinal" (String.ofList ordinal)).withText (flow (String.ofList rest))
  | none => item.withText (flow chunk)

/-- A heading and what follows it. -/
def makeHeading (kind : String) : Work (Option Node) := do
  let e := headingElement kind (← Recipe.next)
  let nodes ← Recipe.childrenOf elementParent
  return some (e.appendAll nodes).toNode

/-- A paragraph of the state chain. -/
def makeState (id : String) : Work (Option Node) := do
  return some (flowElement ((Element.ofKind "paragraph").withAttribute "id" id) (← Recipe.next))

/-- A list. It builds its first item right away. -/
def makeOrderedList : Work (Option Node) := do
  let e ← Recipe.done (listElement (← Recipe.look))
  let first ← Recipe.childOf .listItem (some .listItem)
  let nodes ← Recipe.childrenOf elementParent
  return some (e.appendAll (first.toList ++ nodes)).toNode

/-- A list item and the lists inside it. -/
def makeListItem : Work (Option Node) := do
  let e := itemElement (← Recipe.next)
  let nodes ← Recipe.childrenOf elementParent
  return some (e.appendAll nodes).toNode

/-- What each constructor does. -/
def recipe : Maker → Work (Option Node)
  | .body => do
    let nodes ← Recipe.childrenOf elementParent
    return some ((Element.ofKind "body").appendAll nodes).toNode
  | .section => makeHeading "section"
  | .subsection => makeHeading "subsection"
  | .subsubsection => makeHeading "subsubsection"
  | .paragraph => do return some (flowElement (Element.ofKind "paragraph") (← Recipe.next))
  | .preformatted => do
    return some ((Element.ofKind "preformatted").withText (← Recipe.next)).toNode
  | .header => do return some (flowElement (Element.ofKind "header") (← Recipe.next))
  | .stateA => makeState "state-a"
  | .stateB => makeState "state-b"
  | .stateC => makeState "state-c"
  | .olDecimal | .olAlpha | .olRoman => makeOrderedList
  | .listItem => makeListItem

/-- The outline parser. -/
def parser : Parser Maker String State Symbol Node := ⟨grammar, recipe⟩

end FragmentParser.Outline
