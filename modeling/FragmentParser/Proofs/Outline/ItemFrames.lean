import FragmentParser.Proofs.Outline.Growth
import FragmentParser.Proofs.Outline.Nesting
import FragmentParser.Proofs.Outline.StateChain

/-!
# List items and the frames they are met in

Where the table has entries for list items they come before any others, so that an item wins over
headings and running text, **if its frame has entries for items**. Frames of sections and of lists
have. Frames in the state chain have not: the first two states take nothing but the next paragraph
of the chain, and a list item ends the parse there (`transition?_item_of_chain`), but the last one
takes sections and paragraphs (`transition?_of_stateC`), and `1. First item` is the heading of a
section as well.

What a step does with a list item is told from the state of the innermost frame
(`attaches_of_step`); frames of other lists that it closes before leave it where it is. In a
document the state is not to be seen, but the last state of the chain shows in the children of its
frame's element. So every list item has become one, or it comes behind the end of a chain
(`item_unless_chain_complete`), and the second does happen (`not_forall_item`).
-/

namespace FragmentParser.Outline

variable {chunks : List String} {σ : StateStack State} {x : String} {xs : List String}
  {k : ListClass} {style : ListStyle} {t n : Node} {p q : List Nat} {c c' : Config}

/-- What a chunk becomes in the last state of the chain. -/
def unlistedNode (x : String) : Node :=
  if isHeadingOf 1 x then (headingElement "section" x).toNode
  else flowElement (Element.ofKind "paragraph") x

theorem chunkPlaces_unlistedNode (x : String) : chunkPlaces (unlistedNode x) = [[]] := by
  have hsection : "section" ∈ chunkKinds := by decide
  rw [unlistedNode]
  split
  · exact chunkPlaces_of_texts hsection (ofTexts_of_children_eq_nil rfl)
  · exact (Leaf.paragraph (.inr rfl)).chunkPlaces

/-- The chunk is in the place behind the end of a state chain, and is no list item there. -/
structure Unlisted (t : Node) (x : String) (q : List Nat) : Prop where
  /-- It is a section or a paragraph. -/
  has : t.Has q (unlistedNode x)
  /-- The last paragraph of the chain is among the children before it. -/
  chain : ∃ p j, q = p ++ [j] ∧ ∃ m < j, ∃ b, t.bareAt (p ++ [m]) = some b ∧ IsState "state-c" b

/-! ### Behind the paragraphs of the chain -/

/-- A chunk that begins like those of the chain is no list item. -/
theorem listItem?_of_state (cs : List Char) : listItem? ('S' :: 't' :: cs) = none := by
  rcases hitem : listItem? ('S' :: 't' :: cs) with _ | item
  · rfl
  · obtain ⟨c, ds, after, hcs, hafter, hdigits | hroman | ⟨rfl, -, -⟩⟩ := listItem?_cases hitem
    · obtain ⟨rfl, -⟩ := List.cons_eq_cons.1 hcs
      exact absurd (hdigits 'S' List.mem_cons_self) (by decide)
    · obtain ⟨rfl, -⟩ := List.cons_eq_cons.1 hcs
      exact absurd (hroman 'S' List.mem_cons_self) (by decide)
    · obtain ⟨-, rfl⟩ := List.cons_eq_cons.1 hcs
      obtain ⟨mark, hhead, hmark⟩ := isMark_of_afterMark hafter
      cases hhead
      exact absurd hmark (by simp [IsMark])

theorem beginsWith_eq_false {words : String} (hx : itemClass? x = some k)
    (hwords : ∃ cs, words.toList = 'S' :: 't' :: cs) : beginsWith words x = false := by
  rcases hbegins : beginsWith words x with _ | _
  · rfl
  · obtain ⟨cs, hcs⟩ := hwords
    obtain ⟨rest, hrest⟩ := List.isPrefixOf_iff_prefix.1 hbegins
    rw [itemClass?, listStyle?, ← hrest, hcs, List.cons_append, List.cons_append,
      listItem?_of_state] at hx
    cases hx

/-- Before the chain is complete it takes no list item. -/
theorem transition?_item_of_chain (hx : itemClass? x = some k)
    (hσ : σ.top = .stateA ∨ σ.top = .stateB) : grammar.transition? σ x = none := by
  have hb : beginsWith "State B:" x = false := beginsWith_eq_false hx ⟨_, rfl⟩
  have hc : beginsWith "State C:" x = false := beginsWith_eq_false hx ⟨_, rfl⟩
  rw [transition?_eq]
  rcases hσ with h | h <;> simp [h, tableRow, plainEntries, hb, hc]

/-- Behind a complete chain there is no entry for list items. -/
theorem transition?_of_stateC (hσ : σ.top = .stateC) : grammar.transition? σ x =
    if isHeadingOf 1 x then some (.section, .childIn .section .section)
    else if isParagraph x then some (.paragraph, .child .paragraph) else none := by
  rw [transition?_eq, hσ]
  cases hheading : isHeadingOf 1 x <;> cases hparagraph : isParagraph x <;>
    simp [tableRow, plainEntries, Rule.resolve, hheading, hparagraph]

/-! ### The step that takes an item -/

/-- What a step attaches for a chunk that is a list item. -/
inductive Attaches (x : String) (style : ListStyle) : State → Node → Prop where
  /-- The item itself, in a list of its class. -/
  | join : Attaches x style (listOf style.listClass).1 (itemElement x).toNode
  /-- A new list, in a section or an item. -/
  | start {s : State} : s ∈ sectionStates ∨ s ∈ listStates → Attaches x style s (listNode style x)
  /-- Behind a complete chain, something else. -/
  | unlisted : Attaches x style .stateC (unlistedNode x)

/-- The step that takes a list item attaches one of these. -/
theorem attaches_of_step (hx : listStyle? x.toList = some style) (hrest : c.rest = x :: xs)
    (hstep : design.step design.pile grammar c = .inl c') (htaken : c'.rest = xs) :
    ∃ n, Attaches x style c.stack.top n ∧
      c'.work.tree = Node.attach c.work.below.length n c.work.tree := by
  obtain ⟨⟨s, ss⟩, ⟨e, es⟩, ys⟩ := c
  obtain rfl : ys = x :: xs := hrest
  have hclass : itemClass? x = some style.listClass := by
    rw [itemClass?, hx]
    rfl
  have hstart : ∀ {y}, s ∈ sectionStates ∨ s ∈ listStates →
      grammar.transition? ⟨s, ss⟩ x =
        some (y, .childIn (listOf style.listClass).2 (listOf style.listClass).1) →
      ∃ n, Attaches x style s n ∧
        c'.work.tree = Node.attach es.length n (⟨e, es⟩ : Pile Element).tree := by
    intro y hs ht
    have he : listElement (some x) =
        .ok ((Element.ofKind "ordered-list").withAttribute "type" style.name) := by
      rw [listElement, Option.bind_some, hx]
    rw [step_of_list ht he] at hstep
    cases hstep
    exact ⟨_, .start hs, Pile.tree_append e es _⟩
  have hstates : s ∈ sectionStates ∨ s ∈ listStates ∨ (s = .stateA ∨ s = .stateB) ∨ s = .stateC := by
    cases s <;> decide
  rcases hstates with hs | hs | hs | rfl
  · exact hstart (.inl hs) (transition?_item_of_section hclass hs)
  · by_cases hk : s = (listOf style.listClass).1
    · rw [step_of_container (transition?_item_of_own hclass hk) rfl rfl] at hstep
      cases hstep
      exact ⟨_, hk ▸ .join, Pile.tree_append e es _⟩
    · have ht := transition?_item_of_other (σ := ⟨s, ss⟩) hclass hs hk
      split at ht
      · -- the frame is closed, so the chunk stays
        simp only [Design.step, ht] at hstep
        rcases ss with _ | ⟨s', ss⟩
        · cases hstep
        · cases hstep
          exact absurd htaken (List.cons_ne_self x xs)
      · exact hstart (.inr hs) ht
  · have ht := transition?_item_of_chain (σ := ⟨s, ss⟩) hclass hs
    simp only [Design.step, ht] at hstep
    cases hstep
  · have ht := transition?_of_stateC (σ := ⟨.stateC, ss⟩) (x := x) rfl
    refine ⟨unlistedNode x, .unlisted, ?_⟩
    rw [unlistedNode]
    split at ht
    · next hheading =>
      rw [step_of_container ht rfl rfl] at hstep
      cases hstep
      rw [if_pos hheading]
      exact Pile.tree_append e es _
    · next hheading =>
      split at ht
      · rw [step_of_leaf ht rfl rfl rfl] at hstep
        cases hstep
        rw [if_neg hheading]
        exact Pile.tree_append e es _
      · simp only [Design.step, ht] at hstep
        cases hstep

/-! ### Places of items -/

theorem IsState.bare {id : String} (h : IsState id n) : IsState id n.bare := by
  obtain ⟨hkind, hid⟩ := h
  cases n with
  | text value => cases hid
  | element => exact ⟨hkind, hid⟩

/-- Behind a complete chain its last paragraph is among the children. -/
theorem exists_stateC_of_filled {e : Element} (h : Filled chunks .stateC e) :
    ∃ m < e.children.length, StateAt "state-c" e.children m := by
  obtain ⟨front, marks, after, hchildren, hchained⟩ := h.hasChain
  have hmark : State.stateC.marks[2]? = some "state-c" := rfl
  have hat := hchained.stateAt hmark
  rw [← hchildren] at hat
  have hlt : front.length + 2 < e.children.length := by
    obtain ⟨b, hb, -⟩ := hat
    exact (List.getElem?_eq_some_iff.1 hb).1
  exact ⟨_, hlt, hat⟩

/-- Where the frame is behind a complete chain the chunk is no list item in the tree. -/
theorem Taking.unlisted {i : Nat} (h : Taking chunks t i c c' p) (hs : c.stack.top = .stateC)
    (hhas : t.Has (p ++ [c.work.top.children.length]) (unlistedNode x)) :
    Unlisted t x (p ++ [c.work.top.children.length]) := by
  have hfilled := h.stands.frames.filled
  rw [hs] at hfilled
  obtain ⟨m, hlt, b, hb, hstate⟩ := exists_stateC_of_filled hfilled
  refine ⟨hhas, p, _, rfl, m, hlt, b.bare, ?_, hstate.bare⟩
  have hget : c.work.tree.get? (p ++ [m]) = some b := by
    rw [Node.get?_append, (Node.get?_of_edge h.edge).1]
    show ((c.work.top.children)[m]?.bind fun b ↦ b.get? []) = some b
    rw [hb]
    rfl
  exact h.has _ _ (Node.bareAt_of_get? hget)

/-- **List items come first, unless the state chain is complete.** In every outline document a chunk
that is a list item is one in the tree, in a list of its class, even if it is a heading or long
enough for a header. The only exception is a place behind the end of a state chain, where it is a
section or a paragraph. -/
theorem item_unless_chain_complete {i : Nat}
    (h : (CatalogEntry.outline.parse chunks).result = some (.ok t)) (hx : chunks[i]? = some x)
    (hstyle : listStyle? x.toList = some style) :
    ∃ q, (chunkPlaces t)[i]? = some q ∧ (ItemOf t x q ∨ Unlisted t x q) := by
  obtain ⟨hi, hxi⟩ := List.getElem?_eq_some_iff.1 hx
  obtain ⟨c, c', p, htaking⟩ := exists_taking h hi
  have hrest : c.rest = x :: chunks.drop (i + 1) := by
    rw [htaking.rest, List.drop_eq_getElem_cons hi, hxi]
  obtain ⟨n, hattaches, htree⟩ := attaches_of_step hstyle hrest htaking.step htaking.taken
  have hitem : ∀ {q}, (chunkPlaces t)[i]? = some q → t.Has q (itemElement x).toNode →
      ItemOf t x q := by
    intro q hq hhas
    obtain ⟨σ, ks, hreads⟩ := exists_reads h
    obtain ⟨x', hx', hof⟩ :=
      hreads.nested.1.items i q hq (ItemAt.of_has (itemAt_itemElement x) hhas)
    rw [hx, Option.some.injEq] at hx'
    exact hx' ▸ hof
  generalize hs : c.stack.top = s at hattaches
  cases hattaches with
  | join =>
    obtain ⟨hq, hhas⟩ := htaking.place htree (places_itemElement x)
    exact ⟨_, hq, .inl (hitem hq hhas)⟩
  | start =>
    obtain ⟨hq, hhas⟩ := htaking.place htree (places_listNode style x)
    have hfirst := hhas.trans (has_listNode style x)
    rw [List.append_assoc] at hfirst
    exact ⟨_, hq, .inl (hitem hq hfirst)⟩
  | unlisted =>
    obtain ⟨hq, hhas⟩ := htaking.place htree (chunkPlaces_unlistedNode x)
    exact ⟨_, hq, .inr (htaking.unlisted hs hhas)⟩

/-- An item in a section behind a chain, and one directly behind it. -/
theorem item_unless_chain_complete_section :
    ∃ t, t = .element "body" .empty
        [.element "paragraph" (NameTable.empty.insert "id" "state-a") [.text "State A: one"],
          .element "paragraph" (NameTable.empty.insert "id" "state-b") [.text "State B: two"],
          .element "paragraph" (NameTable.empty.insert "id" "state-c") [.text "State C: three"],
          .element "section" ((NameTable.empty.insert "ordinal" "1").insert "title" "first item")
            [.element "ordered-list" (NameTable.empty.insert "type" "decimal")
              [.element "list-item" (NameTable.empty.insert "ordinal" "2") [.text "second item"]]]] ∧
      (CatalogEntry.outline.parse ["State A: one", "State B: two", "State C: three",
        "1. first item", "2. second item"]).result = some (.ok t) ∧
      ["State A: one", "State B: two", "State C: three", "1. first item", "2. second item"][3]? =
        some "1. first item" ∧
      listStyle? "1. first item".toList = some .decimal ∧
      ∃ q, (chunkPlaces t)[3]? = some q ∧
        (ItemOf t "1. first item" q ∨ Unlisted t "1. first item" q) := by
  have hx : ["State A: one", "State B: two", "State C: three", "1. first item",
      "2. second item"][3]? = some "1. first item" := rfl
  exact ⟨_, rfl, rfl, hx, rfl, item_unless_chain_complete rfl hx rfl⟩

/-- A chunk that is a list item need not be one in the tree. -/
theorem not_forall_item : ¬∀ (chunks : List String) (t : Node) (i : Nat) (x : String),
    (CatalogEntry.outline.parse chunks).result = some (.ok t) → chunks[i]? = some x →
      listStyle? x.toList ≠ none → ∃ q, (chunkPlaces t)[i]? = some q ∧ ItemAt t q := by
  intro h
  obtain ⟨q, hq, attributes, hitem⟩ := h
    ["State A: one", "State B: two", "State C: three", "1. first item"] _ 3
    "1. first item" rfl rfl (by decide)
  cases hq
  have hkind : "section" = "list-item" := (Node.element.inj (Option.some.inj hitem)).1
  exact absurd hkind (by decide)

end FragmentParser.Outline
