import FragmentParser.Grammar.Draft
import FragmentParser.Parser
import FragmentParser.Text.Lines
import FragmentParser.Tree.Basic

/-!
# The memo grammar

Chunks of a short plain text.

```
Introduction
============

Running text, possibly over
several lines.

  indented blocks are kept verbatim
```

A **heading** is a chunk of two lines, the second of which is made of equals signs, as many as the
first has characters. It opens a section that takes everything up to the next heading; what comes
before the first heading belongs to the body itself.
-/

namespace FragmentParser.Memo

open Text

/-- The states of a memo parse. -/
inductive State where
  | body | section
deriving DecidableEq

/-- What chunks are recognized as. -/
inductive Symbol where
  | section | preformatted | paragraph
deriving DecidableEq

/-- What memo constructors build. -/
inductive Maker where
  | body | section | paragraph | preformatted
deriving DecidableEq

/-- The name of a state. -/
def State.name : State → String
  | .body => "Body"
  | .section => "Section"

/-- The name of a symbol. -/
def Symbol.name : Symbol → String
  | .section => "Section"
  | .preformatted => "Preformatted"
  | .paragraph => "Paragraph"

/-- The name of a constructor. -/
def Maker.name : Maker → String
  | .body => "make_body"
  | .section => "make_section"
  | .paragraph => "make_paragraph"
  | .preformatted => "make_preformatted"

/-- Constructors of elements that hold further chunks have their state to themselves. -/
def Maker.frame : Maker → Frame
  | .body | .section => .own
  | .paragraph | .preformatted => .shared

instance : Diagnostic State := ⟨State.name⟩

instance : Diagnostic Symbol := ⟨Symbol.name⟩

instance : Constructor Maker := ⟨Maker.name, Maker.frame⟩

/-! ### Recognizers -/

/-- The title of a chunk that is a heading. -/
def heading? (cs : List Char) : Option (List Char) :=
  match lines cs with
  | [first, second] =>
    let title := trimEnd first
    let underline := trimEnd second
    if !title.isEmpty ∧ underline.all (· = '=') ∧ underline.length = title.length then some title
    else none
  | _ => none

/-- How far the lines of a preformatted block are indented. -/
def indent : List Char := [' ', ' ']

/-- Whether every line of a chunk is indented. -/
def isPreformatted (cs : List Char) : Bool :=
  !cs.isEmpty && (lines cs).all (indent.isPrefixOf ·)

/-- A line without its indentation. -/
def dropIndent (line : List Char) : List Char :=
  if indent.isPrefixOf line then line.drop indent.length else line

/-! ### The grammar -/

/-- The table as a draft. -/
def draft : Grammar.Draft Maker String State Symbol :=
  Grammar.Draft.empty
    |>.recognizer .section (fun chunk ↦ (heading? chunk.toList).isSome)
    |>.recognizer .preformatted (fun chunk ↦ isPreformatted chunk.toList)
    |>.recognizer .paragraph (fun _ ↦ true)
    |>.transition .body .section (.childIn .section .section)
    |>.transitions [.body, .section] .paragraph (.child .paragraph)
    |>.transitions [.body, .section] .preformatted (.child .preformatted)
    |>.transition .section .section .stop
    |>.startingAt .body .body

/-- The memo grammar. -/
def grammar : Grammar Maker String State Symbol := ⟨draft.recognizers, draft.rules, .body, .body⟩

/-- The draft has no faults. -/
theorem build_draft : draft.build = .ok grammar := rfl

/-- The type of parents as traces show it. -/
def elementParent : String := "Element"

/-- The element of a section, which what follows its heading goes into. -/
def sectionElement (chunk : String) : Element :=
  let title := (heading? chunk.toList).getD chunk.toList
  (Element.ofKind "section").withAttribute "title" (String.ofList title)

/-- The element of an indented block. -/
def preformattedElement (chunk : String) : Element :=
  let text := joinLines ((lines chunk.toList).map dropIndent)
  (Element.ofKind "preformatted").withText (String.ofList text)

/-- What each constructor does. -/
def recipe : Maker → Recipe Maker String State Symbol Node (Option Node)
  | .body => do
    let nodes ← Recipe.childrenOf elementParent
    return some ((Element.ofKind "body").appendAll nodes).toNode
  | .section => do
    let e := sectionElement (← Recipe.next)
    let nodes ← Recipe.childrenOf elementParent
    return some (e.appendAll nodes).toNode
  | .paragraph => do
    return some ((Element.ofKind "paragraph").withText (flow (← Recipe.next))).toNode
  | .preformatted => do return some (preformattedElement (← Recipe.next)).toNode

/-- The memo parser. -/
def parser : Parser Maker String State Symbol Node := ⟨grammar, recipe⟩

end FragmentParser.Memo
