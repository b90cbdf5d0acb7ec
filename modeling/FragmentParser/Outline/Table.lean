import FragmentParser.Grammar.Draft
import FragmentParser.Outline.Numbering
import FragmentParser.Text.Lines

/-!
# The table of the outline grammar

Chunks of a structured plain text: numbered headings, ordered lists, running text.

```
1 Introduction                      section
1.2 Background                      subsection
1.2.3 Details                       subsubsection
1. First item                       decimal list item
a) nested item                      letter list item
iv. deeper still                    Roman list item
State A: ...                        state chain (A, then B, then C)
```

**Sections nest by depth.** A heading closes the open sections of the same and of deeper levels.

**Lists nest by numbering class.** An item of a class that is not open yet starts a list inside the
current item; an item of a class that is open somewhere up the stack closes everything below that
list. The decision needs the whole state stack, so it is a computed rule (`sublistOrParent`).

**The state chain replaces the state of the frame it is met in** instead of nesting, so a body takes
`State B` only after `State A`, and `State C` only after that. A subsection that meets `State A`
stops and puts the frame around it into body state, where the paragraph is then built.
-/

namespace FragmentParser.Outline

open Text

/-- The states of an outline parse. -/
inductive State where
  | body | section | subsection | subsubsection
  | stateA | stateB | stateC
  | olDecimal | olAlpha | olRoman
  | listItem
deriving DecidableEq

/-- What chunks are recognized as. -/
inductive Symbol where
  | liDecimal | liRoman | liAlpha
  | header
  | section | subsection | subsubsection
  | preformatted
  | stateA | stateB | stateC
  | paragraph
deriving DecidableEq

/-- What outline constructors build. -/
inductive Maker where
  | body | section | subsection | subsubsection
  | paragraph | preformatted | header
  | stateA | stateB | stateC
  | olDecimal | olAlpha | olRoman
  | listItem
deriving DecidableEq

/-- The name of a state. -/
def State.name : State → String
  | .body => "Body"
  | .section => "Section"
  | .subsection => "Subsection"
  | .subsubsection => "Subsubsection"
  | .stateA => "StateA"
  | .stateB => "StateB"
  | .stateC => "StateC"
  | .olDecimal => "OlDecimal"
  | .olAlpha => "OlAlpha"
  | .olRoman => "OlRoman"
  | .listItem => "ListItem"

/-- All states. -/
def State.all : List State :=
  [.body, .section, .subsection, .subsubsection, .stateA, .stateB, .stateC, .olDecimal, .olAlpha,
    .olRoman, .listItem]

/-- The name of a symbol. -/
def Symbol.name : Symbol → String
  | .liDecimal => "LiDecimal"
  | .liRoman => "LiRoman"
  | .liAlpha => "LiAlpha"
  | .header => "Header"
  | .section => "Section"
  | .subsection => "Subsection"
  | .subsubsection => "Subsubsection"
  | .preformatted => "Preformatted"
  | .stateA => "StateA"
  | .stateB => "StateB"
  | .stateC => "StateC"
  | .paragraph => "Paragraph"

/-- The name of a constructor. -/
def Maker.name : Maker → String
  | .body => "make_body"
  | .section => "make_section"
  | .subsection => "make_subsection"
  | .subsubsection => "make_subsubsection"
  | .paragraph => "make_paragraph"
  | .preformatted => "make_preformatted"
  | .header => "make_header"
  | .stateA => "make_state_a"
  | .stateB => "make_state_b"
  | .stateC => "make_state_c"
  | .olDecimal => "make_ol_decimal"
  | .olAlpha => "make_ol_alpha"
  | .olRoman => "make_ol_roman"
  | .listItem => "make_listitem"

/-- Constructors of elements that hold further chunks have their state to themselves. -/
def Maker.frame : Maker → Frame
  | .paragraph | .preformatted | .header | .stateA | .stateB | .stateC => .shared
  | _ => .own

instance : Diagnostic State := ⟨State.name⟩

instance : Diagnostic Symbol := ⟨Symbol.name⟩

instance : Constructor Maker := ⟨Maker.name, Maker.frame⟩

/-- The grammars of this module. -/
abbrev Table : Type := Grammar Maker String State Symbol

/-! ### Recognizers -/

/-- Whether a chunk is a list item of the given class. -/
def isItemOf (k : ListClass) (chunk : String) : Bool :=
  (listStyle? chunk.toList).any fun style ↦ style.listClass = k

/-- Whether a chunk is a heading of the given depth. -/
def isHeadingOf (depth : Nat) (chunk : String) : Bool := sectionDepth? chunk.toList = some depth

/-- Whether a chunk is a header line: longer than a hundred characters and no sentence. -/
def isHeader (chunk : String) : Bool :=
  100 < chunk.toList.length && chunk.toList.getLast? ≠ some '.'

/-- Whether a chunk has three spaces in a row. -/
def isPreformatted (chunk : String) : Bool := contains [' ', ' ', ' '] chunk.toList

/-- Whether a chunk begins with the given words. -/
def beginsWith (words : String) (chunk : String) : Bool := words.toList.isPrefixOf chunk.toList

/-- Whether a chunk is long enough for running text. -/
def isParagraph (chunk : String) : Bool := 6 < chunk.toList.length

/-! ### The table -/

/-- The state and the constructor of the lists of a class. -/
def listOf : ListClass → State × Maker
  | .decimal => (.olDecimal, .olDecimal)
  | .roman => (.olRoman, .olRoman)
  | .alpha => (.olAlpha, .olAlpha)

/-- The class of list items that a symbol stands for, if it does. -/
def Symbol.listClass? : Symbol → Option ListClass
  | .liDecimal => some .decimal
  | .liRoman => some .roman
  | .liAlpha => some .alpha
  | _ => none

/-- What a list item does in a list of another class or in an item: if a list of its class is open
it stops the frame, and otherwise it starts such a list. -/
def sublistOrParent (y : Symbol) (stack : StateStack State) : Transition Maker State :=
  let (state, maker) := listOf (y.listClass?.getD .roman)
  if stack.contains state then .stop else .childIn maker state

/-- The states in which sections are built. -/
def sectionStates : List State := [.body, .section, .subsection, .subsubsection]

/-- The states of lists, with the symbol of their own items. -/
def lists : List (State × Symbol) :=
  [(.olDecimal, .liDecimal), (.olAlpha, .liAlpha), (.olRoman, .liRoman)]

/-- The symbols of list items. -/
def itemSymbols : List Symbol := lists.map Prod.snd

/-- The symbols of all other chunks, which end lists and their items. -/
def otherSymbols : List Symbol :=
  [.header, .section, .subsection, .subsubsection, .preformatted, .stateA, .stateB, .stateC,
    .paragraph]

/-- The recognizers, in order of precedence. -/
def recognizers : Grammar.Draft Maker String State Symbol :=
  Grammar.Draft.empty
    |>.recognizer .liDecimal (isItemOf .decimal)
    |>.recognizer .liRoman (isItemOf .roman)
    |>.recognizer .liAlpha (isItemOf .alpha)
    |>.recognizer .header isHeader
    |>.recognizer .section (isHeadingOf 1)
    |>.recognizer .subsection (isHeadingOf 2)
    |>.recognizer .subsubsection (isHeadingOf 3)
    |>.recognizer .preformatted isPreformatted
    |>.recognizer .stateA (beginsWith "State A:")
    |>.recognizer .stateB (beginsWith "State B:")
    |>.recognizer .stateC (beginsWith "State C:")
    |>.recognizer .paragraph isParagraph

/-- Running text, lists and sections. -/
def withSections (d : Grammar.Draft Maker String State Symbol) :
    Grammar.Draft Maker String State Symbol :=
  d
    |>.transitions sectionStates .paragraph (.child .paragraph)
    |>.transitions sectionStates .preformatted (.child .preformatted)
    |>.transitions sectionStates .liDecimal (.childIn .olDecimal .olDecimal)
    |>.transitions sectionStates .liAlpha (.childIn .olAlpha .olAlpha)
    |>.transitions sectionStates .liRoman (.childIn .olRoman .olRoman)
    |>.transition .body .header (.child .header)
    |>.transition .body .section (.childIn .section .section)
    |>.transition .section .section .stop
    |>.transition .section .subsection (.childIn .subsection .subsection)
    |>.transitions [.subsection, .subsubsection] .section .stop
    |>.transitions [.subsection, .subsubsection] .subsection .stop
    |>.transition .subsection .subsubsection (.childIn .subsubsection .subsubsection)
    |>.transition .subsubsection .subsubsection .stop

/-- The state chain. -/
def withStateChain (d : Grammar.Draft Maker String State Symbol) :
    Grammar.Draft Maker String State Symbol :=
  d
    |>.transition .body .stateA (.childIn .stateA .stateA)
    |>.transition .subsection .stateA (.redirect .body)
    |>.transition .stateA .stateB (.childIn .stateB .stateB)
    |>.transition .stateB .stateC (.childIn .stateC .stateC)
    |>.transition .stateC .paragraph (.child .paragraph)
    |>.transition .stateC .section (.childIn .section .section)

/-- What happens inside lists and their items. -/
def withLists (d : Grammar.Draft Maker String State Symbol) :
    Grammar.Draft Maker String State Symbol :=
  let d := lists.foldl (fun d (state, own) ↦
    d.transition state own (.childIn .listItem .listItem)) d
  let d := lists.foldl (fun d (state, own) ↦
    (itemSymbols.filter (· ≠ own)).foldl (fun d y ↦ d.computed state y sublistOrParent) d) d
  let d := itemSymbols.foldl (fun d y ↦ d.computed .listItem y sublistOrParent) d
  otherSymbols.foldl (fun d y ↦ d.transitions (lists.map Prod.fst ++ [.listItem]) y .stop) d

/-- The whole table as a draft. -/
def draft : Grammar.Draft Maker String State Symbol :=
  (withLists (withStateChain (withSections recognizers))).startingAt .body .body

/-- The outline grammar. -/
def grammar : Table := ⟨draft.recognizers, draft.rules, .body, .body⟩

/-- The draft has no faults. -/
theorem build_draft : draft.build = .ok grammar := by
  have h₁ : Grammar.Draft.firstRepeated [] (draft.recognizers.map Prod.fst) = none := by decide
  have h₂ : Grammar.Draft.firstFault (draft.recognizers.map Prod.fst) []
      (draft.rules.map Prod.fst) = none := by decide +kernel
  have h₃ : draft.initial = some (.body, .body) := rfl
  simp only [Grammar.Draft.build, h₃, h₁, h₂]
  rfl

end FragmentParser.Outline
