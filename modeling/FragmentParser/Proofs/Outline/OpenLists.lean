import FragmentParser.Proofs.Outline.Steps
import FragmentParser.Proofs.Position

/-!
# Open lists in the tree

Where the lists of a parse are in its tree. An element other than a list and the body is made of
**one chunk**, and a list comes with its first item; so the positions of these elements in document
order are the places of the chunks (`chunkPlaces`).

The lists that are open are on the way from the root to the last item (`OpenLists`): below them all
there are sections, and then lists and items take turns. A list on this way is of one of the open
classes, and each of these classes has one there.
-/

namespace FragmentParser.Outline

/-- The kinds of elements that are made of a chunk each. -/
def chunkKinds : List String := "list-item" :: plainKinds

/-- The positions of these elements in document order: of the first chunk's, of the second's, and so
on. -/
def chunkPlaces (t : Node) : List (List Nat) := t.places chunkKinds

/-- At the position is a list of the style. -/
def ListAt (t : Node) (p : List Nat) (style : ListStyle) : Prop :=
  t.bareAt p = some (.element "ordered-list" (NameTable.empty.insert "type" style.name) [])

/-- At the position is a list item. -/
def ItemAt (t : Node) (p : List Nat) : Prop :=
  ∃ attributes, t.bareAt p = some (.element "list-item" attributes [])

/-- At the position is a node that is no list and no list item. -/
def OtherAt (t : Node) (p : List Nat) : Prop :=
  ∃ b, t.bareAt p = some b ∧ b.kind ≠ "ordered-list" ∧ b.kind ≠ "list-item"

variable {t t' n : Node} {p q : List Nat} {style style' : ListStyle} {x : String}

/-! ### What is at a position -/

theorem ListStyle.name_injective (h : style.name = style'.name) : style = style' := by
  revert h
  cases style <;> cases style' <;> first | exact fun _ ↦ rfl | exact fun h ↦ absurd h (by decide)

/-- A list is of one style. -/
theorem ListAt.eq (h : ListAt t p style) (h' : ListAt t p style') : style = style' := by
  rw [ListAt, h, Option.some.injEq, Node.element.injEq] at h'
  have hname := congrArg (fun a : Attributes ↦ a.get? "type") h'.2.1
  simp only [NameTable.get?_insert, if_true, Option.some.injEq] at hname
  exact ListStyle.name_injective hname

theorem ListAt.not_itemAt (h : ListAt t p style) : ¬ ItemAt t p := by
  rintro ⟨attributes, hitem⟩
  rw [h, Option.some.injEq, Node.element.injEq] at hitem
  exact absurd hitem.1 (by decide)

theorem OtherAt.not_listAt (h : OtherAt t p) : ¬ ListAt t p style := by
  obtain ⟨b, hb, hlist, -⟩ := h
  intro hstyle
  rw [hstyle, Option.some.injEq] at hb
  exact hlist (hb ▸ rfl)

theorem OtherAt.not_itemAt (h : OtherAt t p) : ¬ ItemAt t p := by
  obtain ⟨b, hb, -, hitem⟩ := h
  rintro ⟨attributes, hattributes⟩
  rw [hattributes, Option.some.injEq] at hb
  exact hitem (hb ▸ rfl)

theorem ListAt.mono (h : ListAt t p style) (hgrow : t'.Has [] t) : ListAt t' p style := hgrow p _ h

theorem ItemAt.mono (h : ItemAt t p) (hgrow : t'.Has [] t) : ItemAt t' p :=
  h.imp fun _ hb ↦ hgrow p _ hb

theorem ItemAt.of_has (h : ItemAt n []) (hp : t.Has p n) : ItemAt t p := by
  obtain ⟨attributes, hb⟩ := h
  have hroot := hp [] _ hb
  rw [List.append_nil] at hroot
  exact ⟨attributes, hroot⟩

theorem OtherAt.mono (h : OtherAt t p) (hgrow : t'.Has [] t) : OtherAt t' p :=
  h.imp fun b hb ↦ ⟨hgrow p b hb.1, hb.2⟩

/-- A list on the way to an item that was there before was there before as well. -/
theorem ListAt.of_mono {m : Nat} (h : ListAt t' (q.take m) style) (hgrow : t'.Has [] t)
    (hq : ItemAt t q) : ListAt t (q.take m) style := by
  obtain ⟨attributes, hb⟩ := hq
  rw [← List.take_append_drop m q] at hb
  obtain ⟨b', hb'⟩ := Node.exists_bareAt_of_append hb
  exact hgrow.bareAt_eq hb' h

/-! ### The nodes that are attached -/

/-- In an element of texts there is nothing but the element and its texts. -/
theorem get?_of_texts {kind : String} {attributes : Attributes} {children : List Node}
    (hchildren : ∀ c ∈ children, ∃ s, c = .text s) {m : Node}
    (h : (Node.element kind attributes children).get? q = some m) :
    q = [] ∧ m = .element kind attributes children ∨ ∃ s, m = .text s := by
  rcases q with _ | ⟨i, q⟩
  · exact .inl ⟨rfl, (Option.some.inj h).symm⟩
  · rw [Node.get?_cons] at h
    obtain ⟨c, hc, hm⟩ := Option.bind_eq_some_iff.1 h
    obtain ⟨s, rfl⟩ := hchildren c (List.mem_of_getElem? hc)
    rcases q with _ | ⟨j, q⟩
    · exact .inr ⟨s, (Option.some.inj hm).symm⟩
    · cases hm

theorem places_of_texts {kinds : List String} {kind : String} (attributes : Attributes)
    {children : List Node} (hchildren : ∀ c ∈ children, ∃ s, c = .text s) (hkind : kind ∈ kinds) :
    (Node.element kind attributes children).places kinds = [[]] := by
  have hnone : ∀ i, Node.placesFrom kinds i children = [] := by
    induction children with
    | nil => exact fun _ ↦ rfl
    | cons c children ih =>
      intro i
      obtain ⟨s, rfl⟩ := hchildren _ List.mem_cons_self
      rw [Node.placesFrom, ih fun c hc ↦ hchildren c (List.mem_cons_of_mem _ hc)]
      rfl
  rw [Node.places, if_pos hkind, hnone]
  rfl

/-- An item is made of its text. -/
theorem exists_itemElement (x : String) :
    ∃ attributes value, itemElement x = ⟨"list-item", attributes, [.text value]⟩ := by
  rw [itemElement]
  rcases listItem? x.toList with _ | ⟨style, ordinal, rest⟩
  · exact ⟨_, _, rfl⟩
  · exact ⟨_, _, rfl⟩

theorem get?_itemElement {m : Node} (h : (itemElement x).toNode.get? q = some m) :
    q = [] ∧ m = (itemElement x).toNode ∨ ∃ s, m = .text s := by
  obtain ⟨attributes, value, hitem⟩ := exists_itemElement x
  rw [hitem] at h ⊢
  exact get?_of_texts (fun c hc ↦ ⟨value, List.mem_singleton.1 hc⟩) h

theorem places_itemElement (x : String) : chunkPlaces (itemElement x).toNode = [[]] := by
  obtain ⟨attributes, value, hitem⟩ := exists_itemElement x
  rw [hitem]
  have hkind : "list-item" ∈ chunkKinds := List.mem_cons_self
  exact places_of_texts _ (fun c hc ↦ ⟨value, List.mem_singleton.1 hc⟩) hkind

/-- In a list with its first item there are the list and the item. -/
theorem get?_listNode {m : Node} (h : (listNode style x).get? q = some m) :
    q = [] ∧ m = listNode style x ∨ q = [0] ∧ m = (itemElement x).toNode ∨ ∃ s, m = .text s := by
  rcases q with _ | ⟨i, q⟩
  · exact .inl ⟨rfl, (Option.some.inj h).symm⟩
  · rw [Node.get?_cons] at h
    obtain ⟨c, hc, hm⟩ := Option.bind_eq_some_iff.1 h
    rcases i with _ | i
    · cases hc
      rcases get?_itemElement hm with ⟨rfl, rfl⟩ | hs
      · exact .inr (.inl ⟨rfl, rfl⟩)
      · exact .inr (.inr hs)
    · cases hc

theorem places_listNode (style : ListStyle) (x : String) :
    chunkPlaces (listNode style x) = [[0]] := by
  have hitem := places_itemElement x
  show (if "ordered-list" ∈ chunkKinds then [[]] else []) ++
    ((chunkPlaces (itemElement x).toNode).map (0 :: ·) ++ []) = _
  rw [hitem, if_neg (by decide)]
  rfl

theorem itemAt_itemElement (x : String) : ItemAt (itemElement x).toNode [] := by
  obtain ⟨attributes, value, hitem⟩ := exists_itemElement x
  rw [hitem]
  exact ⟨attributes, rfl⟩

theorem has_listNode (style : ListStyle) (x : String) :
    (listNode style x).Has [0] (itemElement x).toNode :=
  Node.has_of_get? rfl

/-- There is no list in an item. -/
theorem not_listAt_itemElement : ¬ ListAt (itemElement x).toNode q style := by
  intro h
  obtain ⟨m, hm, hbare⟩ := Node.exists_get?_of_bareAt h
  rcases get?_itemElement hm with ⟨rfl, rfl⟩ | ⟨s, rfl⟩
  · exact h.not_itemAt (itemAt_itemElement x)
  · cases hbare

/-- The only list in a list with its first item is this list. -/
theorem eq_of_listAt_listNode (h : ListAt (listNode style x) q style') : q = [] ∧ style = style' := by
  obtain ⟨m, hm, hbare⟩ := Node.exists_get?_of_bareAt h
  rcases get?_listNode hm with ⟨rfl, rfl⟩ | ⟨rfl, rfl⟩ | ⟨s, rfl⟩
  · have hself : ListAt (listNode style x) [] style := rfl
    exact ⟨rfl, hself.eq h⟩
  · exact absurd ((itemAt_itemElement x).of_has (has_listNode style x)) h.not_itemAt
  · cases hbare

theorem not_mem_plainKinds {kind : String} (h : kind ∈ plainKinds) :
    kind ≠ "ordered-list" ∧ kind ≠ "list-item" := by
  constructor <;> rintro rfl <;> exact absurd h (by decide)

/-- There are no lists and items in plain elements. -/
theorem IsPlain.otherAt (h : IsPlain n) {b : Node} (hb : n.bareAt q = some b) : OtherAt n q := by
  obtain ⟨e, rfl, hkind, hchildren⟩ := h
  obtain ⟨m, hm, hbare⟩ := Node.exists_get?_of_bareAt hb
  refine ⟨b, hb, ?_⟩
  rcases get?_of_texts hchildren hm with ⟨rfl, rfl⟩ | ⟨s, rfl⟩
  · subst hbare
    exact not_mem_plainKinds hkind
  · subst hbare
    have htext : "text" ≠ "ordered-list" ∧ "text" ≠ "list-item" := by decide
    exact htext

theorem IsPlain.places (h : IsPlain n) : chunkPlaces n = [[]] := by
  obtain ⟨e, rfl, hkind, hchildren⟩ := h
  exact places_of_texts _ hchildren (List.mem_cons_of_mem _ hkind)

/-! ### The way to the last item -/

/-- The way to a position leads through open lists of the given classes, the innermost first. -/
inductive OpenLists (t : Node) : List ListClass → List Nat → Prop where
  /-- No lists are open among sections. -/
  | sections {p : List Nat} : (∀ m, OtherAt t (p.take m)) → OpenLists t [] p
  /-- An item, in a list inside all others, whose class is not open there. -/
  | item {ks : List ListClass} {q : List Nat} {style : ListStyle} {i j : Nat} : OpenLists t ks q →
      style.listClass ∉ ks → ListAt t (q ++ [i]) style → ItemAt t (q ++ [i, j]) →
      OpenLists t (style.listClass :: ks) (q ++ [i, j])

namespace OpenLists

variable {ks inner outer : List ListClass} {k : ListClass}

theorem mono (h : OpenLists t ks q) (hgrow : t'.Has [] t) : OpenLists t' ks q := by
  induction h with
  | sections hp => exact .sections fun m ↦ (hp m).mono hgrow
  | item _ hk hlist hitem ih => exact .item ih hk (hlist.mono hgrow) (hitem.mono hgrow)

/-- If lists are open the way ends with an item. -/
theorem itemAt (h : OpenLists t ks q) (hks : ks ≠ []) : ItemAt t q := by
  cases h with
  | sections => exact absurd rfl hks
  | item _ _ _ hitem => exact hitem

/-- Otherwise it ends in a section. -/
theorem otherAt_end (h : OpenLists t [] q) : OtherAt t q := by
  cases h with
  | sections hq =>
    have hend := hq q.length
    rwa [List.take_length] at hend

/-- The way to an open list. -/
theorem exists_of_append (h : OpenLists t (inner ++ k :: outer) q) :
    ∃ p i j r style, q = p ++ i :: j :: r ∧ r.length = 2 * inner.length ∧ OpenLists t outer p ∧
      k ∉ outer ∧ style.listClass = k ∧ ListAt t (p ++ [i]) style := by
  induction inner generalizing q with
  | nil =>
    rw [List.nil_append] at h
    cases h with
    | @item _ p style i j h hk hlist _ => exact ⟨p, i, j, [], style, rfl, rfl, h, hk, rfl, hlist⟩
  | cons k' inner ih =>
    rw [List.cons_append] at h
    cases h with
    | @item _ q' _ a b h =>
      obtain ⟨p, i, j, r, style, rfl, hr, hrest⟩ := ih h
      refine ⟨p, i, j, r ++ [a, b], style, by simp, ?_, hrest⟩
      simp only [List.length_append, List.length_cons, List.length_nil, hr]
      omega

/-- A list on the way is of an open class. -/
theorem listClass_mem {m : Nat} (h : OpenLists t ks q) (hlist : ListAt t (q.take m) style) :
    style.listClass ∈ ks := by
  induction h with
  | sections hp => exact absurd hlist (hp m).not_listAt
  | @item ks q style' i j _ _ hlist' hitem ih =>
    rcases Nat.lt_trichotomy m (q.length + 1) with hm | rfl | hm
    · -- it is further out
      rw [List.take_append_of_le_length (Nat.le_of_lt_succ hm)] at hlist
      exact List.mem_cons_of_mem _ (ih hlist)
    · -- it is the innermost one
      rw [List.take_length_add_append] at hlist
      rw [hlist.eq hlist']
      exact List.mem_cons_self
    · -- this is no list, but its item
      rw [List.take_of_length_le (by rw [List.length_append]; exact hm)] at hlist
      exact absurd hitem hlist.not_itemAt

/-- Below the lists there are sections. -/
theorem otherAt {depth m : Nat} (h : OpenLists t ks q) (hlength : q.length = depth + 2 * ks.length)
    (hm : m ≤ depth) : OtherAt t (q.take m) := by
  induction h with
  | sections hp => exact hp m
  | @item ks q style i j _ _ _ _ ih =>
    have hq : q.length = depth + 2 * ks.length := by
      simp only [List.length_append, List.length_cons, List.length_nil] at hlength
      omega
    rw [List.take_append_of_le_length (by omega)]
    exact ih hq

end OpenLists

end FragmentParser.Outline
