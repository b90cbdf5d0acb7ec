import FragmentParser.Proofs.Outline.Frames
import Mathlib.Data.List.Forall2

/-!
# No chunk is lost

The elements of an outline document, other than the body and the lists, are its chunks: **one for
each**, in document order, with the content of the chunk (`keeps_chunks`). This holds for every
document, whatever frames the chunks have gone through: a chunk that stops a frame or sends the one
below back to body state is still there for the frames below, and a list leaves the chunk that it
looks at to its first item.

The invariant is about the pile of open elements (`Account`). The elements are read from the
outermost to the innermost, which is document order because each stands behind the children that the
one around it has so far; so closing a frame does not change what is read.
-/

namespace FragmentParser.Outline

open Text

/-- The kind of the headings of a depth. -/
def headingKind? : Nat → Option String
  | 1 => some "section"
  | 2 => some "subsection"
  | 3 => some "subsubsection"
  | _ => none

/-- The node is an element with the content of the chunk. Further children of a heading or an item
are elements in turn. -/
inductive MadeOf (x : String) : Node → Prop where
  /-- A heading has its number and its title as attributes. -/
  | heading {h : Heading} {kind : String} {children : List Node} :
      heading? x.toList = some h → headingKind? h.depth = some kind →
      (∀ c ∈ children, c.text? = none) →
      MadeOf x (.element kind ((NameTable.empty.insert "ordinal" (String.ofList h.ordinal)).insert
        "title" (String.ofList h.title)) children)
  /-- A list item has its ordinal as an attribute and its words as text. -/
  | item {i : ListItem} {children : List Node} :
      listItem? x.toList = some i → (∀ c ∈ children, c.text? = none) →
      MadeOf x (.element "list-item" (NameTable.empty.insert "ordinal" (String.ofList i.ordinal))
        (.text (flow (String.ofList i.rest)) :: children))
  /-- A header has the words of the chunk as text. -/
  | header : MadeOf x (.element "header" .empty [.text (flow x)])
  /-- So has a paragraph. -/
  | paragraph : MadeOf x (.element "paragraph" .empty [.text (flow x)])
  /-- And so has a paragraph of the state chain. -/
  | state {id : String} : id ∈ stateIds →
      MadeOf x (.element "paragraph" (NameTable.empty.insert "id" id) [.text (flow x)])
  /-- Preformatted text is the chunk as it is. -/
  | preformatted : MadeOf x (.element "preformatted" .empty [.text x])

/-- The elements of the tree are made of these chunks, one of each, in document order. -/
def Spells (xs : List String) (t : Node) : Prop := List.Forall₂ MadeOf xs (t.elementsOf chunkKinds)

/-- The open elements, given from the innermost outwards, are made of these chunks. -/
inductive Account : List String → List Element → Prop where
  | nil : Account [] []
  | cons {xs ys : List String} {e : Element} {es : List Element} :
      Account xs es → Spells ys e.toNode → Account (xs ++ ys) (e :: es)

/-- The open elements are made of the chunks that are taken. -/
def Accounts (chunks : List String) (c : Config) : Prop :=
  ∃ taken, taken ++ c.rest = chunks ∧ Account taken (c.work.top :: c.work.below)

variable {chunks xs ys : List String} {s s' : State} {e e' : Element} {es : List Element} {n : Node}
  {c c' : Config} {x : String}

/-! ### What a chunk makes -/

theorem madeOf_headingElement {depth : Nat} {kind : String} (h : sectionDepth? x.toList = some depth)
    (hkind : headingKind? depth = some kind) : MadeOf x (headingElement kind x).toNode := by
  obtain ⟨heading, hheading, rfl⟩ := Option.map_eq_some_iff.1 h
  have helement : headingElement kind x = ((Element.ofKind kind).withAttribute "ordinal"
      (String.ofList heading.ordinal)).withAttribute "title" (String.ofList heading.title) := by
    simp only [headingElement, hheading, Option.getD_some]
  rw [helement]
  exact .heading hheading hkind (by intro c hc; cases hc)

theorem madeOf_itemElement {k : ListClass} (h : itemClass? x = some k) :
    MadeOf x (itemElement x).toNode := by
  obtain ⟨style, hstyle, -⟩ := Option.map_eq_some_iff.1 h
  obtain ⟨item, hitem, -⟩ := Option.map_eq_some_iff.1 hstyle
  have helement : itemElement x = ((Element.ofKind "list-item").withAttribute "ordinal"
      (String.ofList item.ordinal)).withText (flow (String.ofList item.rest)) := by
    rw [itemElement, hitem]
  rw [helement]
  exact .item hitem (by intro c hc; cases hc)

/-- A leaf has the content of its chunk. -/
theorem Leaf.madeOf (h : Leaf x s s' n) : MadeOf x n := by
  cases h with
  | paragraph => exact .paragraph
  | preformatted => exact .preformatted
  | header => exact .header
  | stateA | stateB | stateC => exact .state (by decide)

/-- So has the element that a frame begins with. -/
theorem Opens.madeOf (h : Opens x s s' e) : MadeOf x e.toNode := by
  cases h with
  | «section» _ hdepth | subsection hdepth | subsubsection hdepth =>
    exact madeOf_headingElement hdepth rfl
  | item hx => exact madeOf_itemElement hx

/-! ### What the elements of a tree are made of -/

theorem OfTexts.elementsOf_children (h : OfTexts n) (kinds : List String) :
    n.children.flatMap (Node.elementsOf kinds) = [] := by
  rw [List.flatMap_eq_nil_iff]
  intro c hc
  obtain ⟨value, rfl⟩ := h c hc
  exact Node.elementsOf_text kinds value

/-- An element with nothing but text in it is made of its own chunk. -/
theorem MadeOf.spells {kind : String} {attributes : Attributes} {children : List Node}
    (h : MadeOf x (.element kind attributes children)) (hkind : kind ∈ chunkKinds)
    (htexts : OfTexts (.element kind attributes children)) :
    Spells [x] (.element kind attributes children) := by
  have hinside : children.flatMap (Node.elementsOf chunkKinds) = [] :=
    htexts.elementsOf_children chunkKinds
  rw [Spells, Node.elementsOf_element, if_pos hkind, hinside]
  exact .cons h .nil

/-- A section or an item begins with the content of its chunk. -/
theorem Opens.spells (h : Opens x s s' e) : Spells [x] e.toNode := by
  exact h.madeOf.spells h.kind_mem_chunkKinds h.ofTexts

/-- A leaf is an element with the content of its chunk. -/
theorem Leaf.spells (h : Leaf x s s' n) : Spells [x] n ∧ n.text? = none := by
  have hchunk : ∀ kind ∈ leafKinds, kind ∈ chunkKinds := by decide
  have hmade := h.madeOf
  obtain ⟨kind, hkind, attributes, value, rfl⟩ := h.exists_text
  exact ⟨hmade.spells (hchunk kind hkind) (ofTexts_singleton _ _ _), rfl⟩

/-- The body and a list are made of no chunk of their own. -/
theorem spells_nil (kind : String) (attributes : Attributes) (hkind : kind ∉ chunkKinds) :
    Spells [] (.element kind attributes []) := by
  rw [Spells, Node.elementsOf_element, if_neg hkind]
  exact .nil

/-- An element keeps its content when a child is added. -/
theorem MadeOf.append (h : MadeOf x e.toNode) (hopen : e.kind ∉ leafKinds) (hn : n.text? = none) :
    MadeOf x (e.append n).toNode := by
  obtain ⟨kind, attributes, children⟩ := e
  have hchildren : ∀ {front : List Node}, (∀ c ∈ front, c.text? = none) →
      ∀ c ∈ front ++ [n], c.text? = none := by
    intro front hfront c hc
    rcases List.mem_append.1 hc with hc | hc
    · exact hfront c hc
    · rwa [List.mem_singleton.1 hc]
  rw [Element.toNode] at h
  cases h with
  | heading hx hkind hfront => exact .heading hx hkind (hchildren hfront)
  | item hx hfront => exact .item hx (hchildren hfront)
  | header => exact absurd (show "header" ∈ leafKinds by decide) hopen
  | paragraph | state => exact absurd (show "paragraph" ∈ leafKinds by decide) hopen
  | preformatted => exact absurd (show "preformatted" ∈ leafKinds by decide) hopen

/-- What is in a new child comes behind all that was there. -/
theorem Spells.append (h : Spells xs e.toNode) (hn : Spells ys n) (hopen : e.kind ∉ leafKinds)
    (htext : n.text? = none) : Spells (xs ++ ys) (e.append n).toNode := by
  rw [Spells, Element.toNode, Node.elementsOf_element] at h ⊢
  have hinside : (e.append n).children.flatMap (Node.elementsOf chunkKinds) =
      e.children.flatMap (Node.elementsOf chunkKinds) ++ n.elementsOf chunkKinds := by
    rw [Element.append, List.flatMap_append, List.flatMap_singleton]
  rw [hinside, ← List.append_assoc]
  refine List.rel_append ?_ hn
  by_cases hkind : e.kind ∈ chunkKinds
  · rw [if_pos hkind] at h
    rw [if_pos (show (e.append n).kind ∈ chunkKinds from hkind)]
    cases h with
    | cons hx hrest => exact .cons (hx.append hopen htext) hrest
  · rw [if_neg hkind] at h
    rwa [if_neg (show (e.append n).kind ∉ chunkKinds from hkind)]

/-! ### Moves keep account of the chunks -/

/-- An element that is open can get children. -/
theorem Filled.kind_not_mem_leafKinds (h : Filled chunks s e) : e.kind ∉ leafKinds := by
  have hkinds : ∀ kind ∈ s.kinds, kind ∉ leafKinds := by
    cases s <;> decide
  exact hkinds _ h.kind

/-- What is added to the innermost element is read last. -/
theorem Account.append (h : Account xs (e :: es)) (hn : Spells ys n) (hopen : e.kind ∉ leafKinds)
    (htext : n.text? = none) : Account (xs ++ ys) (e.append n :: es) := by
  cases h with
  | cons hbelow hspells =>
    rw [List.append_assoc]
    exact .cons hbelow (hspells.append hn hopen htext)

/-- An element that is closed is read where it was. -/
theorem Account.close (h : Account xs (e :: e' :: es)) (hopen : e'.kind ∉ leafKinds) :
    Account xs (e'.append e.toNode :: es) := by
  cases h with
  | cons hbelow hspells => exact hbelow.append hspells hopen rfl

theorem Move.accounts (hmove : Move c c') (hstands : Stands chunks c) (h : Accounts chunks c) :
    Accounts chunks c' := by
  obtain ⟨taken, htaken, haccount⟩ := h
  have hframes := hstands.frames
  have hmore : ∀ {x xs}, taken ++ x :: xs = chunks → (taken ++ [x]) ++ xs = chunks := by
    intro x xs h
    rw [List.append_assoc]
    exact h
  cases hmove with
  | close | redirect =>
    cases hframes with
    | inner hbelow =>
      exact ⟨taken, htaken, haccount.close hbelow.filled.kind_not_mem_leafKinds⟩
  | leaf hleaf =>
    obtain ⟨hspells, htext⟩ := hleaf.spells
    exact ⟨_, hmore htaken,
      haccount.append hspells hframes.filled.kind_not_mem_leafKinds htext⟩
  | opened hopens => exact ⟨_, hmore htaken, .cons haccount hopens.spells⟩
  | @list s ss e e' es x xs k _ hx he =>
    -- the list itself has no chunk, and its first item has the one that both begin with
    have hlist : Spells [] e'.toNode := by
      obtain ⟨hkind, hchildren⟩ := kind_listElement he
      rw [Element.toNode, hkind, hchildren]
      exact spells_nil "ordered-list" _ (by decide)
    have hitem : Opens x (listOf k).1 .listItem (itemElement x) := .item hx
    have haccount' := Account.cons haccount hlist
    rw [List.append_nil] at haccount'
    exact ⟨_, hmore htaken, .cons haccount' hitem.spells⟩

theorem Moves.accounts (hmoves : Moves (beginning chunks) c) : Accounts chunks c := by
  induction hmoves with
  | refl => exact ⟨[], rfl, .cons .nil (spells_nil "body" _ (by decide))⟩
  | tail hmoves hmove ih => exact hmove.accounts (Moves.stands hmoves) ih

/-- In the end the root alone is open, and it is made of all chunks. -/
theorem Accounts.spells {σ : StateStack State} (h : Accounts chunks ⟨σ, ⟨e, []⟩, []⟩) :
    Spells chunks e.toNode := by
  obtain ⟨taken, htaken, haccount⟩ := h
  rw [List.append_nil] at htaken
  subst htaken
  cases haccount with
  | cons hbelow hspells =>
    cases hbelow with
    | nil => exact hspells

/-- Elements other than the body and the lists are made of chunks. -/
theorem exists_madeOf {t : Node} {p : List Nat}
    (h : (CatalogEntry.outline.parse chunks).result = some (.ok t)) (hn : t.get? p = some n)
    (hkind : n.kind ∈ chunkKinds) : ∃ x ∈ chunks, MadeOf x n := by
  obtain ⟨s, e, rfl, hmoves⟩ := exists_moves_of_result h
  cases n with
  | text value =>
    have hnot : "text" ∉ chunkKinds := by decide
    exact absurd hkind hnot
  | element kind attributes children =>
    obtain ⟨i, hi⟩ := List.getElem?_of_mem (Node.mem_elementsOf hn hkind)
    have hspells : Spells chunks e.toNode := hmoves.accounts.spells
    obtain ⟨x, hx, hmade⟩ := forall₂_getElem? hspells hi
    exact ⟨x, List.mem_of_getElem? hx, hmade⟩

/-- **An outline document keeps its chunks**: they are, in this order and each with its content, the
elements of the tree that are neither the body nor lists. -/
theorem keeps_chunks {t : Node} (h : (CatalogEntry.outline.parse chunks).result = some (.ok t)) :
    List.Forall₂ MadeOf chunks (t.elementsOf chunkKinds) := by
  obtain ⟨s, e, rfl, hmoves⟩ := exists_moves_of_result h
  exact hmoves.accounts.spells

theorem keeps_chunks_redirect :
    ∃ t, t = .element "body" .empty
        [.element "section" ((NameTable.empty.insert "ordinal" "1").insert "title" "One")
          [.element "subsection" ((NameTable.empty.insert "ordinal" "1.1").insert "title" "Sub")
            [.element "ordered-list" (NameTable.empty.insert "type" "decimal")
              [.element "list-item" (NameTable.empty.insert "ordinal" "1") [.text "an item"]],
              .element "preformatted" .empty [.text "a   table"]],
            .element "paragraph" (NameTable.empty.insert "id" "state-a") [.text "State A: go"],
            .element "paragraph" (NameTable.empty.insert "id" "state-b") [.text "State B: on"]]] ∧
      (CatalogEntry.outline.parse ["1 One", "1.1 Sub", "1. an  item", "a   table", "State A: go",
        "State B:  on"]).result = some (.ok t) ∧
      List.Forall₂ MadeOf ["1 One", "1.1 Sub", "1. an  item", "a   table", "State A: go",
        "State B:  on"] (t.elementsOf chunkKinds) :=
  ⟨_, rfl, rfl, keeps_chunks rfl⟩

end FragmentParser.Outline
