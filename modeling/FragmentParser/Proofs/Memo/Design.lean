import FragmentParser.Memo
import FragmentParser.Proofs.Errors

/-!
# The design of the memo grammar

The memo grammar state by state, and its constructors by their shapes.
-/

namespace FragmentParser.Memo

open Text

/-- The table of the memo grammar, state by state. -/
def tableRow : State → List (Symbol × (String → Bool) × Rule Maker State Symbol)
  | .body =>
    [(.section, fun chunk ↦ (heading? chunk.toList).isSome, .fixed (.childIn .section .section)),
      (.preformatted, fun chunk ↦ isPreformatted chunk.toList, .fixed (.child .preformatted)),
      (.paragraph, fun _ ↦ true, .fixed (.child .paragraph))]
  | .section =>
    [(.section, fun chunk ↦ (heading? chunk.toList).isSome, .fixed .stop),
      (.preformatted, fun chunk ↦ isPreformatted chunk.toList, .fixed (.child .preformatted)),
      (.paragraph, fun _ ↦ true, .fixed (.child .paragraph))]

/-- The table of the grammar has these rows. -/
theorem row_grammar (s : State) : grammar.row s = tableRow s := by
  cases s <;> rfl

/-- The shapes of the constructors. -/
def shape : Maker → Shape Maker String State Element Node
  | .body => .root (Element.ofKind "body")
  | .section => .container sectionElement
  | .paragraph => .leaf fun chunk ↦
    some ((Element.ofKind "paragraph").withText (flow chunk)).toNode
  | .preformatted => .leaf fun chunk ↦ some (preformattedElement chunk).toNode

/-- The design of the memo parser. -/
def design : Design Maker String State Element Node :=
  ⟨elementParent, Element.append, Element.toNode, shape⟩

/-- No rule of the table names the constructor of the body. -/
theorem maker_ne_body {σ : StateStack State} {x : String} {y : Symbol} {c : Maker}
    {s : Option State} (h : grammar.transition? σ x = some (y, .construct c s)) : c ≠ .body := by
  have hentries : ∀ s, ∀ e ∈ tableRow s, ∀ y σ t, e.2.2.resolve y σ ≠ .construct .body t := by
    intro s
    cases s <;> simp [tableRow, Rule.resolve, Transition.child, Transition.childIn]
  rw [Grammar.transition?_eq_row, row_grammar] at h
  obtain ⟨e, he, heq⟩ := Option.map_eq_some_iff.1 h
  rintro rfl
  exact hentries _ e (List.mem_of_find?_eq_some he) _ _ _ (Prod.mk.inj heq).2

/-- The recipes of the memo parser are those of its design. -/
theorem describes : design.Describes parser where
  recipe_eq c := by
    cases c <;>
      simp only [parser, recipe, design, shape, Design.recipe, Element.appendAll_eq_foldl]
  initial := ⟨_, rfl⟩
  transition {_ _ _ c _} h e := by
    cases c with
    | body => exact absurd rfl (maker_ne_body h)
    | _ =>
      intro hroot
      cases hroot
  first {c start c' item s} h := by
    cases c <;> cases h

/-- The constructors pass errors on, and make none of their own. -/
theorem passesOn (m : Maker) : (parser.recipe m).PassesOn := by
  refine describes.passesOn (fun {c start first item s x e} hshape ↦ ?_) m
  cases c <;> cases hshape

end FragmentParser.Memo
