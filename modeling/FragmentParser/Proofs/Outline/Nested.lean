import FragmentParser.Proofs.Outline.OpenLists
import Mathlib.Data.List.Forall2

/-!
# Trees with nested lists

What it means for the lists of a tree to be right for the chunks that it was made of (`Nested`). An
item that comes after another **joins the list of its class** if there is one on the way to that
one, and otherwise it **starts a list inside** it (`NextItem`). That gives lists their form: they
have items of one class, items have a text and one list at most, and no class comes twice on the way
to any node.

All of this speaks of positions, which a growing tree keeps. So attaching a node preserves it
everywhere, if it is right in the one place where the node is attached (`Nested.attach`).
-/

namespace FragmentParser.Outline

/-- The item of a chunk is at the position. It is in a list of its class, and if it is the first
there the list is of its style. -/
structure ItemOf (t : Node) (x : String) (q : List Nat) : Prop where
  /-- The item is there. -/
  has : t.Has q (itemElement x).toNode
  /-- It is in a list. -/
  list : ∃ p j style first, q = p ++ [j] ∧ listStyle? x.toList = some style ∧ ListAt t p first ∧
    style.listClass = first.listClass ∧ (j = 0 → style = first)

/-- Chunk `i` was made into the item at `q`. Where in tree `t` the next chunk is, if it is an item
of this style; tree `before` is the one without it. -/
structure NextItem (before t : Node) (i : Nat) (q : List Nat) (style : ListStyle) : Prop where
  /-- If a list of its class is on the way to that item, it is appended there. -/
  join : ∀ m j first, q[m]? = some j → ListAt t (q.take m) first →
    first.listClass = style.listClass →
      (chunkPlaces t)[i + 1]? = some (q.take m ++ [j + 1]) ∧ ItemAt t (q.take m ++ [j + 1]) ∧
        before.bareAt (q.take m ++ [j + 1]) = none
  /-- If there is none, it is the first item of a new list, behind the text of that item. -/
  start : (∀ m first, ListAt t (q.take m) first → first.listClass ≠ style.listClass) →
    (chunkPlaces t)[i + 1]? = some (q ++ [1, 0]) ∧ ItemAt t (q ++ [1, 0]) ∧
      ListAt t (q ++ [1]) style ∧ before.bareAt (q ++ [1]) = none

/-- Lists have items and nothing else, and items have a text and then one list at most. -/
def WellShaped : Node → Prop
  | .text _ => True
  | .element kind _ children =>
    (kind = "ordered-list" → children ≠ [] ∧ ∀ c ∈ children, c.kind = "list-item") ∧
    (kind = "list-item" → ∃ value, children = [.text value] ∨ ∃ attributes items,
      children = [.text value, .element "ordered-list" attributes items])

/-- No two lists of one class are on the way to any node. -/
def Apart (t : Node) : Prop :=
  ∀ p r style style', ListAt t p style → ListAt t (p ++ r) style' → r ≠ [] →
    style.listClass ≠ style'.listClass

/-- The lists of a tree are right for the chunks that it was made of. -/
structure Nested (chunks : List String) (t : Node) : Prop where
  /-- The chunks before any chunk were made into the beginning of the tree. -/
  beginnings : ∀ i < chunks.length, ∃ before,
    (CatalogEntry.outline.parse (chunks.take i)).result = some (.ok before) ∧ t.Has [] before ∧
      chunkPlaces before = (chunkPlaces t).take i
  /-- Every chunk has its place. -/
  length : (chunkPlaces t).length = chunks.length
  /-- All lists and items have their form. -/
  shapes : ∀ p n, t.get? p = some n → WellShaped n
  /-- The items are those of their chunks. -/
  items : ∀ (i : Nat) (q : List Nat), (chunkPlaces t)[i]? = some q → ItemAt t q →
    ∃ x, chunks[i]? = some x ∧ ItemOf t x q
  /-- Classes do not repeat inside each other. -/
  apart : Apart t
  /-- A list item that comes after another gets where it belongs. -/
  next : ∀ (i : Nat) (q : List Nat), (chunkPlaces t)[i]? = some q → ItemAt t q →
    ∀ x style, chunks[i + 1]? = some x → listStyle? x.toList = some style → ∃ before,
      (CatalogEntry.outline.parse (chunks.take (i + 1))).result = some (.ok before) ∧
        NextItem before t i q style

variable {t t' n before : Node} {p q s : List Nat} {e : Element} {style style' : ListStyle}
  {x : String} {chunks : List String} {i depth : Nat}

/-! ### What is kept while the tree grows -/

theorem getElem?_concat_cases {α : Type} {l : List α} {a b : α} (h : (l ++ [a])[i]? = some b) :
    l[i]? = some b ∨ i = l.length ∧ b = a := by
  rcases Nat.lt_trichotomy i l.length with hi | rfl | hi
  · rw [List.getElem?_append_left hi] at h
    exact .inl h
  · rw [List.getElem?_concat_length] at h
    exact .inr ⟨rfl, (Option.some.inj h).symm⟩
  · rw [List.getElem?_eq_none (by rw [List.length_append, List.length_singleton]; omega)] at h
    cases h

theorem getElem?_append_of_some {α : Type} {l : List α} {a : α} (h : l[i]? = some a)
    (l' : List α) : (l ++ l')[i]? = some a := by
  rw [List.getElem?_append_left (List.getElem?_eq_some_iff.1 h).1, h]

/-- Related lists have related elements. -/
theorem forall₂_getElem? {α β : Type} {R : α → β → Prop} {l : List α} {l' : List β}
    (h : List.Forall₂ R l l') {b : β} (hb : l'[i]? = some b) : ∃ a, l[i]? = some a ∧ R a b := by
  induction h generalizing i with
  | nil => cases hb
  | cons hab _ ih =>
    rcases i with _ | i
    · cases hb
      exact ⟨_, rfl, hab⟩
    · exact ih hb

theorem getElem?_after_last {α : Type} {l : List α} {a : α} (h : l.getLast? = some a) (b : α) :
    (l ++ [b])[l.length - 1 + 1]? = some b := by
  have hpos : 0 < l.length := List.length_pos_of_ne_nil fun hnil ↦ by
    rw [hnil] at h
    cases h
  rw [Nat.sub_add_cancel hpos, List.getElem?_concat_length]

/-- The item at a chunk's place was there before. -/
theorem ItemAt.of_mem_chunkPlaces (h : ItemAt t' q) (hgrow : t'.Has [] t)
    (hq : q ∈ chunkPlaces t) : ItemAt t q := by
  obtain ⟨n, hn, -⟩ := Node.exists_of_mem_places _ _ _ hq
  exact h.imp fun _ hb ↦ hgrow.bareAt_eq (Node.bareAt_of_get? hn) hb

theorem ItemOf.mono (h : ItemOf t x q) (hgrow : t'.Has [] t) : ItemOf t' x q where
  has := hgrow.trans h.has
  list := by
    obtain ⟨p, j, style, first, rfl, hstyle, hlist, hrest⟩ := h.list
    exact ⟨p, j, style, first, rfl, hstyle, hlist.mono hgrow, hrest⟩

theorem NextItem.mono (h : NextItem before t i q style) (hgrow : t'.Has [] t) (hq : ItemAt t q)
    {rest : List (List Nat)} (hplaces : chunkPlaces t' = chunkPlaces t ++ rest) :
    NextItem before t' i q style where
  join m j first hj hlist hclass := by
    obtain ⟨hplace, hitem, hnew⟩ := h.join m j first hj (hlist.of_mono hgrow hq) hclass
    rw [hplaces]
    exact ⟨getElem?_append_of_some hplace rest, hitem.mono hgrow, hnew⟩
  start hnone := by
    obtain ⟨hplace, hitem, hlist, hnew⟩ := h.start fun m first hlist ↦
      hnone m first (hlist.mono hgrow)
    rw [hplaces]
    exact ⟨getElem?_append_of_some hplace rest, hitem.mono hgrow, hlist.mono hgrow, hnew⟩

/-- The form of a node does not depend on what its children hold. -/
theorem wellShaped_of_bare_eq {kind : String} {attributes : Attributes} {front : List Node}
    {c c' : Node} (hbare : c.bare = c'.bare)
    (h : WellShaped (.element kind attributes (front ++ [c]))) :
    WellShaped (.element kind attributes (front ++ [c'])) := by
  have hkind : c.kind = c'.kind := by
    cases c <;> cases c' <;> cases hbare <;> rfl
  refine ⟨fun hlist ↦ ⟨by simp, fun d hd ↦ ?_⟩, fun hitem ↦ ?_⟩
  · rcases List.mem_append.1 hd with hd | hd
    · exact (h.1 hlist).2 d (List.mem_append_left _ hd)
    · rw [List.mem_singleton.1 hd, ← hkind]
      exact (h.1 hlist).2 c (List.mem_append_right _ List.mem_cons_self)
  · obtain ⟨value, hchildren | ⟨a, items, hchildren⟩⟩ := h.2 hitem
    · have hsplit : front ++ [c] = [] ++ [.text value] := hchildren
      obtain ⟨rfl, hc⟩ := List.append_inj' hsplit rfl
      cases hc
      cases c' <;> cases hbare
      exact ⟨value, .inl rfl⟩
    · have hsplit : front ++ [c] = [.text value] ++ [.element "ordered-list" a items] := hchildren
      obtain ⟨rfl, hc⟩ := List.append_inj' hsplit rfl
      cases hc
      cases c' <;> cases hbare
      exact ⟨value, .inr ⟨_, _, rfl⟩⟩

/-- The new chunk's place comes last. -/
theorem chunkPlaces_attach (hedge : t.edge depth = some (p, e)) (hplace : chunkPlaces n = [s]) :
    chunkPlaces (Node.attach depth n t) = chunkPlaces t ++ [p ++ e.children.length :: s] := by
  have hn : n.places chunkKinds = [s] := hplace
  rw [chunkPlaces, Node.places_attach hedge, hn]
  rfl

/-- With a node for one more chunk lists are right everywhere, if they are where it was attached. -/
theorem Nested.attach (h : Nested chunks t)
    (hresult : (CatalogEntry.outline.parse chunks).result = some (.ok t))
    (hedge : t.edge depth = some (p, e)) (hplace : chunkPlaces n = [s])
    (hn : ∀ q m, n.get? q = some m → WellShaped m) (he : WellShaped (e.append n).toNode)
    (hitem : ItemAt (Node.attach depth n t) (p ++ e.children.length :: s) →
      ItemOf (Node.attach depth n t) x (p ++ e.children.length :: s))
    (hapart : Apart (Node.attach depth n t))
    (hnext : ∀ q style, (chunkPlaces t).getLast? = some q → ItemAt t q →
      listStyle? x.toList = some style →
        NextItem t (Node.attach depth n t) ((chunkPlaces t).length - 1) q style) :
    Nested (chunks ++ [x]) (Node.attach depth n t) := by
  have hgrow := Node.has_attach_self hedge n
  have hplaces := chunkPlaces_attach hedge hplace
  refine ⟨fun i hi ↦ ?_, ?_, ?_, fun i q hq hi ↦ ?_, hapart, fun i q hq hi x' style hx' hstyle ↦ ?_⟩
  · rw [List.length_append] at hi
    rw [hplaces, List.take_append_of_le_length (Nat.le_of_lt_succ hi),
      List.take_append_of_le_length (h.length.symm ▸ Nat.le_of_lt_succ hi)]
    rcases Nat.lt_or_eq_of_le (Nat.le_of_lt_succ hi) with hi | rfl
    · obtain ⟨before, hbefore, hhas, heq⟩ := h.beginnings i hi
      exact ⟨before, hbefore, hgrow.trans hhas, heq⟩
    · rw [List.take_length, ← h.length, List.take_length]
      exact ⟨t, hresult, hgrow, rfl⟩
  · rw [hplaces, List.length_append, h.length, List.length_append]
    rfl
  · exact Node.forall_get?_attach wellShaped_of_bare_eq hedge h.shapes hn he
  · rw [hplaces] at hq
    rcases getElem?_concat_cases hq with hq | ⟨rfl, rfl⟩
    -- an item that was there before stays the item of its chunk
    · obtain ⟨x', hx', hof⟩ := h.items i q hq
        (hi.of_mem_chunkPlaces hgrow (List.mem_of_getElem? hq))
      exact ⟨x', getElem?_append_of_some hx' [x], hof.mono hgrow⟩
    · exact ⟨x, by rw [h.length, List.getElem?_concat_length], hitem hi⟩
  · have hlt : i < chunks.length := by
      have hlength := (List.getElem?_eq_some_iff.1 hx').1
      rw [List.length_append] at hlength
      exact Nat.lt_of_succ_lt_succ hlength
    rw [hplaces, List.getElem?_append_left (h.length.symm ▸ hlt)] at hq
    have hold := hi.of_mem_chunkPlaces hgrow (List.mem_of_getElem? hq)
    rcases getElem?_concat_cases hx' with hx' | ⟨hlast, rfl⟩
    · obtain ⟨before, hbefore, hnext⟩ := h.next i q hq hold x' style hx' hstyle
      refine ⟨before, ?_, hnext.mono hgrow hold hplaces⟩
      rwa [List.take_append_of_le_length hlt]
    · -- the chunk that was added comes after this item
      obtain rfl : i = (chunkPlaces t).length - 1 := by rw [h.length]; omega
      rw [← List.getLast?_eq_getElem?] at hq
      refine ⟨t, ?_, hnext q style hq hold hstyle⟩
      rwa [hlast, List.take_left]

/-! ### Classes on the way -/

/-- Two lists of one class on the way to a node are the same. -/
theorem Apart.eq (h : Apart t) {m m' : Nat} (hlist : ListAt t (q.take m) style)
    (hlist' : ListAt t (q.take m') style') (hclass : style.listClass = style'.listClass)
    (hm : m ≤ q.length) (hm' : m' ≤ q.length) : m = m' := by
  have hlt : ∀ {m m' style style'}, ListAt t (q.take m) style → ListAt t (q.take m') style' →
      style.listClass = style'.listClass → m' ≤ q.length → ¬ m < m' := by
    intro m m' style style' hlist hlist' hclass hm' hlt
    have hsplit : q.take m' = q.take m ++ (q.take m').drop m := by
      have htake := List.take_append_drop m (q.take m')
      rw [List.take_take, Nat.min_eq_left (Nat.le_of_lt hlt)] at htake
      exact htake.symm
    rw [hsplit] at hlist'
    refine h _ _ _ _ hlist hlist' ?_ hclass
    intro hnil
    have hlength := congrArg List.length hnil
    rw [List.length_drop, List.length_take, List.length_nil] at hlength
    omega
  -- by symmetry neither can be further out
  rcases Nat.lt_trichotomy m m' with hcase | hcase | hcase
  · exact absurd hcase (hlt hlist hlist' hclass hm')
  · exact hcase
  · exact absurd hcase (hlt hlist' hlist hclass.symm hm)

/-- What is attached keeps classes apart if the only list in it is its root, and this one's class is
not on the way there. -/
theorem Apart.attach (h : Apart t) (hedge : t.edge depth = some (p, e))
    (hn : ∀ q style, ListAt n q style → q = [] ∧ ∀ m first, ListAt t (p.take m) first →
      first.listClass ≠ style.listClass) : Apart (Node.attach depth n t) := by
  intro p₁ r style style' hlist hlist' hr
  rcases (Node.bareAt_attach hedge).1 hlist with hold | ⟨q, rfl, hnew⟩
  · rcases (Node.bareAt_attach hedge).1 hlist' with hold' | ⟨q, heq, hnew⟩
    · exact h p₁ r style style' hold hold' hr
    · -- the list outside is on the way to the new one
      obtain ⟨rfl, hway⟩ := hn q style' hnew
      refine hway p₁.length style ?_
      obtain ⟨front, last, rfl⟩ := List.eq_nil_or_concat r |>.resolve_left hr
      rw [List.concat_eq_append, ← List.append_assoc] at heq
      obtain ⟨rfl, -⟩ := List.append_inj' heq rfl
      rwa [List.take_left]
  · -- inside the new list there is none
    rw [List.append_assoc, List.cons_append] at hlist'
    rcases (Node.bareAt_attach hedge).1 hlist' with hold' | ⟨q', heq, hnew'⟩
    · rw [Node.bareAt_eq_none_of_edge hedge] at hold'
      cases hold'
    · obtain ⟨rfl, -⟩ := hn q' style' hnew'
      have hq := List.append_cancel_left heq
      rw [List.cons.injEq, List.append_eq_nil_iff] at hq
      exact absurd hq.2.2 hr

/-! ### The element that is added to -/

theorem listKind_ne : "ordered-list" ≠ "list-item" := by decide

theorem wellShaped_of_ne {kind : String} (attributes : Attributes) (children : List Node)
    (h : kind ≠ "ordered-list" ∧ kind ≠ "list-item") :
    WellShaped (.element kind attributes children) :=
  ⟨fun hlist ↦ absurd hlist h.1, fun hitem ↦ absurd hitem h.2⟩

theorem wellShaped_itemElement (x : String) : WellShaped (itemElement x).toNode := by
  obtain ⟨attributes, value, hitem⟩ := exists_itemElement x
  rw [hitem]
  exact ⟨fun hlist ↦ absurd hlist listKind_ne.symm, fun _ ↦ ⟨value, .inl rfl⟩⟩

theorem wellShaped_of_get?_itemElement {m : Node}
    (h : (itemElement x).toNode.get? q = some m) : WellShaped m := by
  rcases get?_itemElement h with ⟨-, rfl⟩ | ⟨s, rfl⟩
  · exact wellShaped_itemElement x
  · trivial

theorem wellShaped_of_get?_listNode {m : Node} (h : (listNode style x).get? q = some m) :
    WellShaped m := by
  rcases get?_listNode h with ⟨-, rfl⟩ | ⟨-, rfl⟩ | ⟨s, rfl⟩
  · refine ⟨fun _ ↦ ⟨List.cons_ne_nil _ _, fun c hc ↦ ?_⟩, fun hitem ↦ absurd hitem listKind_ne⟩
    obtain ⟨a, value, hitem⟩ := exists_itemElement x
    rw [List.mem_singleton.1 hc, hitem]
    rfl
  · exact wellShaped_itemElement x
  · trivial

/-- Items come behind the items of a list. -/
theorem wellShaped_append_item (he : t.get? p = some e.toNode) (h : WellShaped e.toNode)
    (hlist : ListAt t p style) (x : String) :
    WellShaped (e.append (itemElement x).toNode).toNode := by
  obtain ⟨kind, attributes, children⟩ := e
  rw [ListAt, Node.bareAt_of_get? he, Option.some.injEq] at hlist
  cases hlist
  refine ⟨fun _ ↦ ⟨by simp [Element.append], fun c hc ↦ ?_⟩, fun hitem ↦ absurd hitem listKind_ne⟩
  rcases List.mem_append.1 hc with hc | hc
  · exact (h.1 rfl).2 c hc
  · obtain ⟨a, value, hitem⟩ := exists_itemElement x
    rw [List.mem_singleton.1 hc, hitem]
    rfl

/-- A list comes behind the text of an item. -/
theorem wellShaped_append_list (he : t.get? p = some e.toNode) (h : WellShaped e.toNode)
    (hitem : ItemAt t p) (hlength : e.children.length = 1) (style : ListStyle) (x : String) :
    WellShaped (e.append (listNode style x)).toNode := by
  obtain ⟨kind, attributes, children⟩ := e
  obtain ⟨a, hitem⟩ := hitem
  rw [Node.bareAt_of_get? he, Option.some.injEq] at hitem
  cases hitem
  refine ⟨fun hlist ↦ absurd hlist listKind_ne.symm, fun _ ↦ ?_⟩
  obtain ⟨value, rfl | ⟨a', items, rfl⟩⟩ := h.2 rfl
  · exact ⟨value, .inr ⟨_, _, rfl⟩⟩
  · cases hlength

/-- Anything comes behind what is neither in a list nor in an item. -/
theorem wellShaped_append_of_otherAt (he : t.get? p = some e.toNode) (hother : OtherAt t p)
    (n : Node) : WellShaped (e.append n).toNode := by
  obtain ⟨b, hb, hkind⟩ := hother
  rw [Node.bareAt_of_get? he, Option.some.injEq] at hb
  subst hb
  exact wellShaped_of_ne _ _ hkind

end FragmentParser.Outline
