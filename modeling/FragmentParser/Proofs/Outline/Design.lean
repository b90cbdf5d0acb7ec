import FragmentParser.Outline.Recipes
import FragmentParser.Proofs.Errors

/-!
# The design of the outline grammar

The outline grammar state by state, and its constructors by their shapes. `tableRow` is the table as
one reads it: for each state the symbols that are applicable there, **in order of precedence**, each
with its recognizer and its rule. That the rows come out of the draft's long chain of additions is
checked by evaluation once (`row_grammar`), and later proofs look a chunk up in a row.
-/

namespace FragmentParser.Outline

/-- An entry of a row. -/
abbrev Entry : Type := Symbol × (String → Bool) × Rule Maker State Symbol

/-! ### The table, state by state -/

/-- The entries for list items, given the rule for the items of a class. -/
def itemEntries (rule : ListClass → Rule Maker State Symbol) : List Entry :=
  [(.liDecimal, isItemOf .decimal, rule .decimal), (.liRoman, isItemOf .roman, rule .roman),
    (.liAlpha, isItemOf .alpha, rule .alpha)]

/-- A list item starts a list. -/
def startList (k : ListClass) : Rule Maker State Symbol :=
  .fixed (.childIn (listOf k).2 (listOf k).1)

/-- In a list of class `own`, items of its class join it, and others are for other lists. -/
def joinList (own k : ListClass) : Rule Maker State Symbol :=
  if k = own then .fixed (.childIn .listItem .listItem) else .computed sublistOrParent

/-- The entries that end lists and their items. -/
def stopEntries : List Entry :=
  [(.header, isHeader, .fixed .stop),
    (.section, isHeadingOf 1, .fixed .stop),
    (.subsection, isHeadingOf 2, .fixed .stop),
    (.subsubsection, isHeadingOf 3, .fixed .stop),
    (.preformatted, isPreformatted, .fixed .stop),
    (.stateA, beginsWith "State A:", .fixed .stop),
    (.stateB, beginsWith "State B:", .fixed .stop),
    (.stateC, beginsWith "State C:", .fixed .stop),
    (.paragraph, isParagraph, .fixed .stop)]

/-- The entries of a state besides those for list items. -/
def plainEntries : State → List Entry
  | .body =>
    [(.header, isHeader, .fixed (.child .header)),
      (.section, isHeadingOf 1, .fixed (.childIn .section .section)),
      (.preformatted, isPreformatted, .fixed (.child .preformatted)),
      (.stateA, beginsWith "State A:", .fixed (.childIn .stateA .stateA)),
      (.paragraph, isParagraph, .fixed (.child .paragraph))]
  | .section =>
    [(.section, isHeadingOf 1, .fixed .stop),
      (.subsection, isHeadingOf 2, .fixed (.childIn .subsection .subsection)),
      (.preformatted, isPreformatted, .fixed (.child .preformatted)),
      (.paragraph, isParagraph, .fixed (.child .paragraph))]
  | .subsection =>
    [(.section, isHeadingOf 1, .fixed .stop),
      (.subsection, isHeadingOf 2, .fixed .stop),
      (.subsubsection, isHeadingOf 3, .fixed (.childIn .subsubsection .subsubsection)),
      (.preformatted, isPreformatted, .fixed (.child .preformatted)),
      (.stateA, beginsWith "State A:", .fixed (.redirect .body)),
      (.paragraph, isParagraph, .fixed (.child .paragraph))]
  | .subsubsection =>
    [(.section, isHeadingOf 1, .fixed .stop),
      (.subsection, isHeadingOf 2, .fixed .stop),
      (.subsubsection, isHeadingOf 3, .fixed .stop),
      (.preformatted, isPreformatted, .fixed (.child .preformatted)),
      (.paragraph, isParagraph, .fixed (.child .paragraph))]
  | .stateA => [(.stateB, beginsWith "State B:", .fixed (.childIn .stateB .stateB))]
  | .stateB => [(.stateC, beginsWith "State C:", .fixed (.childIn .stateC .stateC))]
  | .stateC =>
    [(.section, isHeadingOf 1, .fixed (.childIn .section .section)),
      (.paragraph, isParagraph, .fixed (.child .paragraph))]
  | .olDecimal | .olAlpha | .olRoman | .listItem => stopEntries

/-- The row of a state. -/
def tableRow : State → List Entry
  | .body => itemEntries startList ++ plainEntries .body
  | .section => itemEntries startList ++ plainEntries .section
  | .subsection => itemEntries startList ++ plainEntries .subsection
  | .subsubsection => itemEntries startList ++ plainEntries .subsubsection
  | .stateA => plainEntries .stateA
  | .stateB => plainEntries .stateB
  | .stateC => plainEntries .stateC
  | .olDecimal => itemEntries (joinList .decimal) ++ stopEntries
  | .olAlpha => itemEntries (joinList .alpha) ++ stopEntries
  | .olRoman => itemEntries (joinList .roman) ++ stopEntries
  | .listItem => itemEntries (fun _ ↦ .computed sublistOrParent) ++ stopEntries

/-- The table of the grammar has these rows. -/
theorem row_grammar (s : State) : grammar.row s = tableRow s := by
  cases s <;> rfl

/-- A chunk's transition is that of the first entry of the row that accepts it. -/
theorem transition?_eq (σ : StateStack State) (x : String) :
    grammar.transition? σ x =
      ((tableRow σ.top).find? fun e ↦ e.2.1 x).map fun e ↦ (e.1, e.2.2.resolve e.1 σ) := by
  rw [Grammar.transition?_eq_row, row_grammar]

/-! ### The constructors -/

/-- The shapes of the constructors. -/
def shape : Maker → Shape Maker String State Element Node
  | .body => .root (Element.ofKind "body")
  | .section => .container (headingElement "section")
  | .subsection => .container (headingElement "subsection")
  | .subsubsection => .container (headingElement "subsubsection")
  | .paragraph => .leaf fun chunk ↦ some (flowElement (Element.ofKind "paragraph") chunk)
  | .preformatted => .leaf fun chunk ↦ some ((Element.ofKind "preformatted").withText chunk).toNode
  | .header => .leaf fun chunk ↦ some (flowElement (Element.ofKind "header") chunk)
  | .stateA => .leaf fun chunk ↦
    some (flowElement ((Element.ofKind "paragraph").withAttribute "id" "state-a") chunk)
  | .stateB => .leaf fun chunk ↦
    some (flowElement ((Element.ofKind "paragraph").withAttribute "id" "state-b") chunk)
  | .stateC => .leaf fun chunk ↦
    some (flowElement ((Element.ofKind "paragraph").withAttribute "id" "state-c") chunk)
  | .olDecimal | .olAlpha | .olRoman => .series listElement .listItem itemElement (some .listItem)
  | .listItem => .container itemElement

/-- The design of the outline parser. -/
def design : Design Maker String State Element Node := 
  ⟨elementParent, Element.append, Element.toNode, shape⟩

/-- No entry of the table names the constructor of the body. -/
theorem maker_ne_body {σ : StateStack State} {x : String} {y : Symbol} {c : Maker}
    {s : Option State} (h : grammar.transition? σ x = some (y, .construct c s)) : c ≠ .body := by
  have hentries : ∀ s, ∀ e ∈ tableRow s, ∀ y σ t, e.2.2.resolve y σ ≠ .construct .body t := by
    have hsub : ∀ y σ t, sublistOrParent y σ ≠ .construct .body t := by
      intro y σ t
      simp only [sublistOrParent]
      split
      · exact nofun
      · cases y.listClass?.getD .roman <;> exact nofun
    intro s
    cases s <;>
      simp [tableRow, plainEntries, itemEntries, stopEntries, startList, joinList, listOf,
        Rule.resolve, Transition.child, Transition.childIn, hsub]
  rw [transition?_eq] at h
  obtain ⟨e, he, heq⟩ := Option.map_eq_some_iff.1 h
  rintro rfl
  exact hentries _ e (List.mem_of_find?_eq_some he) _ _ _ (Prod.mk.inj heq).2

/-- The recipes of the outline parser are those of its design. -/
theorem describes : design.Describes parser where
  recipe_eq c := by
    cases c <;>
      simp only [parser, recipe, design, shape, Design.recipe, makeHeading, makeState,
        makeOrderedList, makeListItem, Element.appendAll_eq_foldl]
  initial := ⟨_, rfl⟩
  transition {_ _ _ c _} h e := by
    cases c with
    | body => exact absurd rfl (maker_ne_body h)
    | _ =>
      intro hroot
      cases hroot
  first {c start c' item s} h := by
    cases c <;> cases h <;> rfl

/-- The constructors pass errors on. Only those of lists make errors of their own, for want of an
item. -/
theorem passesOn (m : Maker) : (parser.recipe m).PassesOn := by
  refine describes.passesOn (fun {c start first item s x e} hshape he ↦ ?_) m
  have hstart : start = listElement := by
    cases c <;> cases hshape <;> rfl
  rw [hstart, listElement] at he
  split at he
  · cases he
    trivial
  · cases he

end FragmentParser.Outline
