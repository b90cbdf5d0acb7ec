import FragmentParser.Proofs.Format.Drawing
import FragmentParser.Proofs.Memo.Grouping
import FragmentParser.Proofs.Outline.Content
import FragmentParser.Proofs.Outline.Numbering

/-!
# Documents are drawn line by line

The documents of the memo grammar and of the outline grammar have no line feeds in what labels are
made of (`Memo.unbroken_document`, `Outline.Filled.unbroken`), so their drawings have exactly one
line for each element (`Treeviz.draws_elements`). Titles are lines of a chunk, or what is left of
one when a line feed at its end is trimmed; ordinals are digits and letters; the other attributes
and the kinds are constants.
-/

namespace FragmentParser

open Format.Treeviz Text

namespace Format.Treeviz

variable {as : Attributes} {name value : String} {e : Element} {n : Node}

theorem unbrokenAttributes_empty : UnbrokenAttributes .empty := by
  intro name _ value h
  cases h

theorem UnbrokenAttributes.insert (h : UnbrokenAttributes as) (name : String)
    (hvalue : '\n' ∉ value.toList) : UnbrokenAttributes (as.insert name value) := by
  intro name' hname' value' hvalue'
  rw [NameTable.get?_insert] at hvalue'
  split at hvalue'
  · cases hvalue'
    exact hvalue
  · exact h name' hname' value' hvalue'

theorem UnbrokenAttributes.insert_ofList (h : UnbrokenAttributes as) (name : String)
    {cs : List Char} (hcs : '\n' ∉ cs) : UnbrokenAttributes (as.insert name (String.ofList cs)) :=
  h.insert name (by rwa [String.toList_ofList])

theorem unbroken_append (he : Unbroken e.toNode) (hn : Unbroken n) :
    Unbroken (e.append n).toNode := by
  refine ⟨he.1, he.2.1, allUnbroken_iff.2 ?_⟩
  exact List.forall_mem_append.2 ⟨allUnbroken_iff.1 he.2.2, List.forall_mem_singleton.2 hn⟩

end Format.Treeviz

/-! ### Memos -/

namespace Memo

theorem unbroken_leaf (chunk : String) : Unbroken (leaf chunk) := by
  rw [leaf]
  split <;> exact ⟨by decide, unbrokenAttributes_empty, trivial, trivial⟩

/-- The title of a heading is one line. -/
theorem notMem_title (heading : String) : '\n' ∉ (title heading).toList := by
  rw [title, String.toList_ofList]
  intro h
  have hline := mem_of_mem_trimEnd h
  cases hlines : lines heading.toList with
  | nil =>
    rw [hlines] at hline
    cases hline
  | cons first others =>
    rw [hlines] at hline
    exact notMem_of_mem_lines (hlines ▸ List.mem_cons_self) hline

theorem unbroken_sectionNode (heading : String) (chunks : List String) :
    Unbroken (sectionNode heading chunks) :=
  ⟨by decide, unbrokenAttributes_empty.insert _ (notMem_title heading),
    allUnbroken_iff.2 (List.forall_mem_map.2 fun chunk _ ↦ unbroken_leaf chunk)⟩

theorem unbroken_document (chunks : List String) : Unbroken (document chunks) :=
  ⟨by decide, unbrokenAttributes_empty, allUnbroken_iff.2 (List.forall_mem_append.2
    ⟨List.forall_mem_map.2 fun chunk _ ↦ unbroken_leaf chunk,
      List.forall_mem_map.2 fun s _ ↦ unbroken_sectionNode s.1 s.2⟩)⟩

end Memo

/-! ### Outlines -/

namespace Outline

variable {cs : List Char} {x : String} {s s' : State} {e : Element} {n : Node}
  {chunks : List String}

/-- A title is one line: a line feed can only be the last character of a heading, and it is
trimmed. -/
theorem notMem_heading? {heading : Heading} (h : heading? cs = some heading) :
    '\n' ∉ heading.ordinal ∧ '\n' ∉ heading.title := by
  obtain ⟨w, rfl, hmeans⟩ := heading?_eq_some_iff_written.1 h
  obtain ⟨hordinal, htitle⟩ := WrittenHeading.means_iff.1 hmeans
  rw [← hordinal, ← htitle]
  refine ⟨fun hmem ↦ ?_, fun hmem ↦ w.isTail.notMem_dropLast (mem_dropLast_of_mem_trim rfl hmem)⟩
  rcases List.mem_cons.1 (mem_of_mem_dropEndWhile hmem) with hdigit | hother
  · exact absurd (hdigit ▸ w.isDigit_digit) (by decide)
  · exact absurd (w.isDigit_others _ hother) (by decide)

/-- An ordinal has digits or letters only. -/
theorem notMem_listItem? {item : ListItem} (h : listItem? cs = some item) :
    '\n' ∉ item.ordinal := by
  obtain ⟨after, -, hordinal, -⟩ := listItem?_eq_some_iff.1 h
  exact fun hmem ↦ absurd (hordinal.isDigit_or_isAlpha hmem) (by decide)

/-- What is made of a chunk is unbroken. -/
theorem MadeOf.unbroken (h : MadeOf x n) (htexts : OfTexts n) : Unbroken n := by
  have hchildren : AllUnbroken n.children := by
    refine allUnbroken_iff.2 fun c hc ↦ ?_
    obtain ⟨value, rfl⟩ := htexts c hc
    trivial
  cases h with
  | @heading _ kind _ hheading hkind =>
    obtain ⟨hordinal, htitle⟩ := notMem_heading? hheading
    have hkind' : '\n' ∉ kind.toList := by
      unfold headingKind? at hkind
      split at hkind <;> cases hkind <;> decide
    exact ⟨hkind', (unbrokenAttributes_empty.insert_ofList _ hordinal).insert_ofList _ htitle,
      hchildren⟩
  | item hitem =>
    exact ⟨by decide, unbrokenAttributes_empty.insert_ofList _ (notMem_listItem? hitem), hchildren⟩
  | header | paragraph | preformatted =>
    exact ⟨by decide, unbrokenAttributes_empty, hchildren⟩
  | state hid =>
    have hid' := (by decide : ∀ id ∈ stateIds, '\n' ∉ id.toList) _ hid
    exact ⟨by decide, unbrokenAttributes_empty.insert _ hid', hchildren⟩

/-- The type of a list is one line. -/
theorem unbroken_listElement {y : Option String} (h : listElement y = .ok e) :
    Unbroken e.toNode := by
  rw [listElement] at h
  split at h
  · cases h
  · next style _ =>
    cases h
    have hname : '\n' ∉ style.name.toList := by
      cases style <;> decide
    exact ⟨(by decide : '\n' ∉ "ordered-list".toList), unbrokenAttributes_empty.insert _ hname,
      trivial⟩

/-- What frames build is unbroken. -/
theorem Filled.unbroken (h : Filled chunks s e) : Unbroken e.toNode := by
  induction h with
  | body => exact ⟨by decide, unbrokenAttributes_empty, trivial⟩
  | opened hopens => exact hopens.madeOf.unbroken hopens.ofTexts
  | list _ he => exact unbroken_listElement he
  | leaf _ hleaf ih =>
    obtain ⟨kind, -, attributes, value, rfl⟩ := hleaf.exists_text
    exact unbroken_append ih (hleaf.madeOf.unbroken (ofTexts_singleton _ _ _))
  | child _ _ _ ih ih' => exact unbroken_append ih ih'
  | redirected _ _ _ ih ih' => exact unbroken_append ih ih'

end Outline

/-! ### Drawings -/

namespace Format.Treeviz

/-- **A drawing has exactly one line for each element.** The elements stand at the positions of the
tree that are listed in their order, and the lines are theirs, one after the other and each with a
line feed at its end only. This needs that there are no line feeds in what labels are made of, which
holds of every document of the two grammars. So the shape of a tree can be read from its drawing. -/
theorem draws_elements :
    (∀ (width : Nat) (e : Element), Unbroken e.toNode →
      render width e.toNode =
        String.ofList ((positions e.toNode).flatMap fun p ↦ line width e.toNode p ++ ['\n']) ∧
      (∀ p ∈ positions e.toNode, '\n' ∉ line width e.toNode p) ∧
      (positions e.toNode).Pairwise (· < ·) ∧
      ∀ p, p ∈ positions e.toNode ↔ ∃ e' : Element, e.toNode.get? p = some e'.toNode) ∧
    (∀ (chunks : List String) (t : Node), (CatalogEntry.memo.parse chunks).result = some (.ok t) ∨
      (CatalogEntry.outline.parse chunks).result = some (.ok t) →
      ∃ e : Element, t = e.toNode ∧ Unbroken e.toNode) ∧
    ∀ (width width' : Nat) (e e' : Element), Unbroken e.toNode → Unbroken e'.toNode →
      render width e.toNode = render width' e'.toNode → shapes e.toNode = shapes e'.toNode := by
  refine ⟨fun width e he ↦ ⟨render_eq_lines width e, fun p _ ↦ notMem_line he width p,
    pairwise_positions e.toNode, mem_positions_iff e.toNode⟩, ?_, ?_⟩
  · rintro chunks t (h | h)
    · rw [(Memo.parse_eq_document chunks).1] at h
      cases h
      exact ⟨⟨"body", .empty, _⟩, rfl, Memo.unbroken_document chunks⟩
    · obtain ⟨s, e, rfl, -, hfilled⟩ := Outline.exists_filled_of_result h
      exact ⟨e, rfl, hfilled.unbroken⟩
  · exact fun width width' e e' he he' ↦ shapes_eq_of_render_eq he he'

/-- Two memos that differ behind the width of labels. -/
theorem draws_elements_memo :
    let paragraph (value : String) : Node := .element "paragraph" .empty [.text value]
    let titled (title : String) (n : Node) : Node :=
      .element "section" (NameTable.empty.insert "title" title) [n]
    let memo (value : String) : Element :=
      ⟨"body", .empty, [titled "T" (paragraph "x"), titled "U" (paragraph value)]⟩
    (CatalogEntry.memo.parse ["T\n=", "x", "U\n=", "a b c"]).result =
        some (.ok (memo "a b c").toNode) ∧
      (CatalogEntry.memo.parse ["T\n=", "x", "U\n=", "a  bd"]).result =
        some (.ok (memo "a bd").toNode) ∧
      render 3 (memo "a b c").toNode = "⧉ bod...\n├─ § T\n│ └─ ¶ x\n└─ § U\n  └─ ¶ a b...\n" ∧
      render 3 (memo "a b c").toNode = render 3 (memo "a bd").toNode ∧
      shapes (memo "a b c").toNode = shapes (memo "a bd").toNode := by
  intro paragraph titled memo
  obtain ⟨hlines, hdocuments, hshapes⟩ := draws_elements
  have hunbroken : ∀ {chunks : List String} {e : Element},
      (CatalogEntry.memo.parse chunks).result = some (.ok e.toNode) → Unbroken e.toNode := by
    intro chunks e h
    obtain ⟨e', he', hunbroken⟩ := hdocuments chunks e.toNode (.inl h)
    rwa [he']
  have hfirst : (CatalogEntry.memo.parse ["T\n=", "x", "U\n=", "a b c"]).result =
      some (.ok (memo "a b c").toNode) := rfl
  have hsecond : (CatalogEntry.memo.parse ["T\n=", "x", "U\n=", "a  bd"]).result =
      some (.ok (memo "a bd").toNode) := rfl
  have hrender : render 3 (memo "a b c").toNode = render 3 (memo "a bd").toNode := by
    rw [(hlines 3 _ (hunbroken hfirst)).1, (hlines 3 _ (hunbroken hsecond)).1]
    decide
  have hdrawing : render 3 (memo "a b c").toNode =
      "⧉ bod...\n├─ § T\n│ └─ ¶ x\n└─ § U\n  └─ ¶ a b...\n" := by
    rw [(hlines 3 _ (hunbroken hfirst)).1]
    decide
  exact ⟨hfirst, hsecond, hdrawing, hrender,
    hshapes 3 3 _ _ (hunbroken hfirst) (hunbroken hsecond) hrender⟩

end Format.Treeviz

end FragmentParser
