import FragmentParser.Proofs.Memo.Design
import FragmentParser.Proofs.Pile
import FragmentParser.Proofs.Simulation
import FragmentParser.Proofs.Termination

/-!
# A memo is grouped by its headings

A memo parse never fails, and what it builds can be said without states and frames. `group` cuts the
chunks at the **headings**: a preface of chunks that are none, and one group for each heading with
the chunks up to the next one. `document` makes a leaf of every chunk that is no heading and a
section of every group.

A heading that ends a section is looked at twice in a parse, once by the section, which stops and
leaves it, and once by the body, which opens the next section with it. The two looks agree since
headings come first in both rows of the table. So the induction on the chunks is about the body and
an open section **at the same time**, and the body's case for a chunk comes first.
-/

namespace FragmentParser.Memo

open Text

/-! ### Headings and leaves -/

/-- The chunk has two lines, the first is not blank, and the second is made of as many equals signs
as the first has characters. Blanks at the end of a line do not count. -/
def IsHeading (chunk : String) : Prop :=
  ∃ first second, lines chunk.toList = [first, second] ∧ trimEnd first ≠ [] ∧
    trimEnd second = List.replicate (trimEnd first).length '='

/-- The title of a heading is its first line. -/
def title (heading : String) : String :=
  String.ofList (trimEnd ((lines heading.toList).headD []))

/-- The chunk is not empty, and all its lines begin with two spaces. -/
def IsIndented (chunk : String) : Prop :=
  chunk.toList ≠ [] ∧ ∀ line ∈ lines chunk.toList, [' ', ' '] <+: line

theorem heading?_eq_some_iff {cs t : List Char} : heading? cs = some t ↔
    ∃ first second, lines cs = [first, second] ∧ trimEnd first = t ∧ t ≠ [] ∧
      trimEnd second = List.replicate t.length '=' := by
  rw [heading?]
  split
  · next first second hlines =>
    have hunderline : (trimEnd second).all (· = '=') = true ∧
        (trimEnd second).length = (trimEnd first).length ↔
          trimEnd second = List.replicate (trimEnd first).length '=' := by
      rw [List.eq_replicate_iff, and_comm]
      simp
    simp only [hunderline, Option.ite_none_right_eq_some, Option.some.injEq, Bool.not_eq_true',
      List.isEmpty_eq_false_iff, hlines, List.cons.injEq, and_true]
    constructor
    · rintro ⟨⟨hne, heq⟩, rfl⟩
      exact ⟨first, second, ⟨rfl, rfl⟩, rfl, hne, heq⟩
    · rintro ⟨_, _, ⟨rfl, rfl⟩, rfl, hne, heq⟩
      exact ⟨⟨hne, heq⟩, rfl⟩
  · next hlines =>
    simp only [reduceCtorEq, false_iff]
    rintro ⟨first, second, heq, -⟩
    exact hlines first second heq

/-- The recognizer of headings accepts headings. -/
theorem isSome_heading?_iff {chunk : String} :
    (heading? chunk.toList).isSome = true ↔ IsHeading chunk := by
  rw [Option.isSome_iff_exists]
  constructor
  · rintro ⟨t, ht⟩
    obtain ⟨first, second, hlines, rfl, hne, hunderline⟩ := heading?_eq_some_iff.1 ht
    exact ⟨first, second, hlines, hne, hunderline⟩
  · rintro ⟨first, second, hlines, hne, hunderline⟩
    exact ⟨_, heading?_eq_some_iff.2 ⟨first, second, hlines, rfl, hne, hunderline⟩⟩

/-- The recognizer of indented blocks accepts these. -/
theorem isPreformatted_iff {chunk : String} :
    isPreformatted chunk.toList = true ↔ IsIndented chunk := by
  simp [isPreformatted, IsIndented, indent]

instance (chunk : String) : Decidable (IsHeading chunk) :=
  decidable_of_iff _ isSome_heading?_iff

instance (chunk : String) : Decidable (IsIndented chunk) :=
  decidable_of_iff _ isPreformatted_iff

/-- The node of a chunk that is no heading. -/
def leaf (chunk : String) : Node :=
  if IsIndented chunk then
    .element "preformatted" .empty
      [.text (String.ofList (joinLines ((lines chunk.toList).map (List.drop 2))))]
  else .element "paragraph" .empty [.text (flow chunk)]

/-! ### Grouping -/

/-- The chunks before the first heading, and each heading with the chunks up to the next one. -/
def group : List String → List String × List (String × List String)
  | [] => ([], [])
  | x :: xs =>
    if IsHeading x then ([], (x, (group xs).1) :: (group xs).2)
    else (x :: (group xs).1, (group xs).2)

/-- The node of a section. -/
def sectionNode (heading : String) (chunks : List String) : Node :=
  .element "section" (NameTable.empty.insert "title" (title heading)) (chunks.map leaf)

/-- The document that the chunks make when they are grouped by headings. -/
def document (chunks : List String) : Node :=
  .element "body" .empty
    ((group chunks).1.map leaf ++ (group chunks).2.map fun s ↦ sectionNode s.1 s.2)

variable {x : String} {xs : List String}

theorem group_of_heading (hx : IsHeading x) (xs : List String) :
    group (x :: xs) = ([], (x, (group xs).1) :: (group xs).2) := by
  rw [group, if_pos hx]

theorem group_of_not_heading (hx : ¬IsHeading x) (xs : List String) :
    group (x :: xs) = (x :: (group xs).1, (group xs).2) := by
  rw [group, if_neg hx]

/-- The groups in order are the chunks, and exactly the first of each group is a heading. -/
theorem group_cuts (chunks : List String) :
    (group chunks).1 ++ (group chunks).2.flatMap (fun s ↦ s.1 :: s.2) = chunks ∧
      (∀ x ∈ (group chunks).1, ¬IsHeading x) ∧
      ∀ s ∈ (group chunks).2, IsHeading s.1 ∧ ∀ x ∈ s.2, ¬IsHeading x := by
  induction chunks with
  | nil => simp [group]
  | cons x xs ih =>
    obtain ⟨hchunks, hpreface, hsections⟩ := ih
    by_cases hx : IsHeading x
    · rw [group_of_heading hx]
      refine ⟨?_, by simp, ?_⟩
      · simpa using hchunks
      · intro s hs
        rcases List.mem_cons.1 hs with rfl | hs
        · exact ⟨hx, hpreface⟩
        · exact hsections s hs
    · rw [group_of_not_heading hx]
      refine ⟨by simpa using hchunks, ?_, hsections⟩
      intro y hy
      rcases List.mem_cons.1 hy with rfl | hy
      · exact hx
      · exact hpreface y hy

/-! ### What the table says -/

/-- In the body a heading opens a section. -/
theorem transition?_body {σ : StateStack State} (hσ : σ.top = .body) (hx : IsHeading x) :
    grammar.transition? σ x = some (.section, .childIn .section .section) := by
  rw [Grammar.transition?_eq_row, row_grammar, hσ, tableRow,
    List.find?_cons_of_pos (by exact isSome_heading?_iff.2 hx)]
  rfl

/-- In a section it stops the section. -/
theorem transition?_section {σ : StateStack State} (hσ : σ.top = .section) (hx : IsHeading x) :
    grammar.transition? σ x = some (.section, .stop) := by
  rw [Grammar.transition?_eq_row, row_grammar, hσ, tableRow,
    List.find?_cons_of_pos (by exact isSome_heading?_iff.2 hx)]
  rfl

/-- The element of an indented block has its lines without their indentation. -/
theorem toNode_preformattedElement (hx : IsIndented x) :
    (preformattedElement x).toNode = leaf x := by
  have hdrop : (lines x.toList).map dropIndent = (lines x.toList).map (List.drop 2) := by
    refine List.map_congr_left fun line hline ↦ ?_
    have hindent : indent.isPrefixOf line = true := List.isPrefixOf_iff_prefix.2 (hx.2 line hline)
    rw [dropIndent, if_pos hindent]
    rfl
  rw [leaf, if_pos hx, preformattedElement, hdrop]
  rfl

/-- Any other chunk becomes a leaf, in the body as in a section. -/
theorem transition?_leaf (σ : StateStack State) (hx : ¬IsHeading x) :
    ∃ y c make, grammar.transition? σ x = some (y, .child c) ∧ design.shape c = .leaf make ∧
      make x = some (leaf x) := by
  have hheading : (heading? x.toList).isSome ≠ true := mt isSome_heading?_iff.1 hx
  by_cases hindented : IsIndented x
  · refine ⟨.preformatted, .preformatted, _, ?_, rfl,
      congrArg some (toNode_preformattedElement hindented)⟩
    rw [Grammar.transition?_eq_row, row_grammar]
    cases σ.top <;>
      rw [tableRow, List.find?_cons_of_neg (by exact hheading),
        List.find?_cons_of_pos (by exact isPreformatted_iff.2 hindented)] <;>
      rfl
  · refine ⟨.paragraph, .paragraph, _, ?_, rfl, ?_⟩
    · rw [Grammar.transition?_eq_row, row_grammar]
      cases σ.top <;>
        rw [tableRow, List.find?_cons_of_neg (by exact hheading),
          List.find?_cons_of_neg (by exact mt isPreformatted_iff.1 hindented)] <;>
        rfl
    · rw [leaf, if_neg hindented]
      rfl

/-! ### The parse chunk by chunk -/

/-- What a memo parse comes to with the frames `σ` and the elements `w` open. -/
def grow (σ : StateStack State) (w : Pile Element) (chunks : List String) :
    Except ParseError Node :=
  design.run design.pile grammar ⟨σ, w, chunks⟩

/-- A leaf is added to the innermost element. -/
theorem grow_leaf (σ : StateStack State) (w : Pile Element) (hx : ¬IsHeading x) (xs : List String) :
    grow σ w (x :: xs) = grow σ { w with top := w.top.append (leaf x) } xs := by
  obtain ⟨y, c, make, ht, hshape, hmake⟩ := transition?_leaf σ hx
  have hshare : σ.share (Constructor.frame c) none = σ := by
    cases Constructor.frame c <;> rfl
  rw [grow, Design.run_eq]
  simp only [Design.step, ht, Transition.child, hshare, Design.enter, hshape, hmake]
  rfl

/-- The body opens a section for a heading. -/
theorem grow_open (e : Element) (hx : IsHeading x) (xs : List String) :
    grow (.root .body) ⟨e, []⟩ (x :: xs) =
      grow ⟨.section, [.body]⟩ ⟨sectionElement x, [e]⟩ xs := by
  rw [grow, Design.run_eq]
  simp only [Design.step, transition?_body (σ := .root .body) rfl hx]
  rfl

/-- A section leaves a heading to the body. -/
theorem grow_close (s e : Element) (hx : IsHeading x) (xs : List String) :
    grow ⟨.section, [.body]⟩ ⟨s, [e]⟩ (x :: xs) =
      grow (.root .body) ⟨e.append s.toNode, []⟩ (x :: xs) := by
  rw [grow, Design.run_eq]
  simp only [Design.step, transition?_section (σ := ⟨.section, [.body]⟩) rfl hx]
  rfl

/-- At the end the body is complete. -/
theorem grow_body_nil (e : Element) : grow (.root .body) ⟨e, []⟩ [] = .ok e.toNode := by
  rw [grow, Design.run_eq]
  rfl

/-- And so is a section that is open. -/
theorem grow_section_nil (s e : Element) :
    grow ⟨.section, [.body]⟩ ⟨s, [e]⟩ [] = .ok (e.append s.toNode).toNode := by
  rw [grow, Design.run_eq]
  exact grow_body_nil (e.append s.toNode)

/-- The element that a heading opens, with all its children, is the section. -/
theorem toNode_sectionElement (hx : IsHeading x) (chunks : List String) :
    ((sectionElement x).appendAll (chunks.map leaf)).toNode = sectionNode x chunks := by
  obtain ⟨first, second, hlines, hne, hunderline⟩ := hx
  have hheading : heading? x.toList = some (trimEnd first) :=
    heading?_eq_some_iff.2 ⟨first, second, hlines, rfl, hne, hunderline⟩
  rw [sectionNode, title, hlines, sectionElement, hheading]
  rfl

/-- The body takes the preface and a section for each group. An open section takes the preface of
what is left, and is then one of the body's children. -/
theorem grow_eq (chunks : List String) :
    (∀ e : Element, grow (.root .body) ⟨e, []⟩ chunks =
      .ok ((e.appendAll ((group chunks).1.map leaf)).appendAll
        ((group chunks).2.map fun s ↦ sectionNode s.1 s.2)).toNode) ∧
    ∀ s e : Element, grow ⟨.section, [.body]⟩ ⟨s, [e]⟩ chunks =
      .ok ((e.append (s.appendAll ((group chunks).1.map leaf)).toNode).appendAll
        ((group chunks).2.map fun s ↦ sectionNode s.1 s.2)).toNode := by
  induction chunks with
  | nil =>
    refine ⟨fun e ↦ ?_, fun s e ↦ ?_⟩
    · simp [grow_body_nil, group, Element.appendAll]
    · simp [grow_section_nil, group, Element.appendAll]
  | cons x xs ih =>
    obtain ⟨hbody, hsection⟩ := ih
    by_cases hx : IsHeading x
    · have hopen : ∀ e : Element, grow (.root .body) ⟨e, []⟩ (x :: xs) =
          .ok (e.appendAll (((x, (group xs).1) :: (group xs).2).map
            fun s ↦ sectionNode s.1 s.2)).toNode := by
        intro e
        rw [grow_open e hx, hsection, toNode_sectionElement hx]
        simp [Element.append, Element.appendAll]
      rw [group_of_heading hx]
      refine ⟨fun e ↦ ?_, fun s e ↦ ?_⟩
      · rw [hopen]
        simp [Element.appendAll]
      · rw [grow_close s e hx, hopen]
        simp [Element.appendAll]
    · rw [group_of_not_heading hx]
      refine ⟨fun e ↦ ?_, fun s e ↦ ?_⟩
      · rw [grow_leaf _ _ hx, hbody]
        simp [Element.append, Element.appendAll]
      · rw [grow_leaf _ _ hx, hsection]
        simp [Element.append, Element.appendAll]

/-- **A memo parse succeeds and groups the chunks by headings.** Its document is a body with a leaf
for each chunk before the first heading and a section for each heading, which has its title and a
leaf for each chunk up to the next heading. The groups in order are the chunks, so that none is
lost, and exactly those chunks begin a group that are headings. -/
theorem parse_eq_document (chunks : List String) :
    (CatalogEntry.memo.parse chunks).result = some (.ok (document chunks)) ∧
      (group chunks).1 ++ (group chunks).2.flatMap (fun s ↦ s.1 :: s.2) = chunks ∧
      (∀ x ∈ (group chunks).1, ¬IsHeading x) ∧
      ∀ s ∈ (group chunks).2, IsHeading s.1 ∧ ∀ x ∈ s.2, ¬IsHeading x := by
  refine ⟨?_, group_cuts chunks⟩
  obtain ⟨outcome, d, hrun⟩ := describes.exists_run chunks
  have h := hrun _ (Nat.le_refl _)
  have hroot : design.shape parser.grammar.initialConstructor = .root (Element.ofKind "body") := rfl
  have hmachine := describes.run_eq design.pile_keeps hroot h
  rw [Lookahead.toList_ofList] at hmachine
  have houtcome : outcome = .ok (document chunks) := by
    rw [← hmachine]
    refine ((grow_eq chunks).1 (Element.ofKind "body")).trans ?_
    simp [document, Element.appendAll, Element.ofKind, Element.toNode]
  show (parser.report (chunkBound chunks) chunks).result = _
  rw [Parser.report, h, houtcome]

/-- A preface, a section with an indented block, and one without anything. -/
example : document ["A  preface.", "Title\n=====", "  let x = 1\n  let y = 2", "End\n==="] =
    .element "body" .empty
      [.element "paragraph" .empty [.text "A preface."],
        .element "section" (NameTable.empty.insert "title" "Title")
          [.element "preformatted" .empty [.text "let x = 1\nlet y = 2"]],
        .element "section" (NameTable.empty.insert "title" "End") []] := by
  decide

end FragmentParser.Memo
