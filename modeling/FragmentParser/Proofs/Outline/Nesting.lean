import FragmentParser.Proofs.Outline.Nested

/-!
# How lists nest

**The lists of every outline that is parsed are nested** (`lists_nest`), whatever stands between
them.

The proof is an induction on the chunks that were read. What it carries on is that the lists of the
tree so far are nested and where the open ones are in it (`Tip`). A chunk that joins a list or
starts one, or that closes them all, preserves both.
-/

namespace FragmentParser.Outline

/-- The end of a tree on which `depth` sections and then lists of these classes are open: the
innermost open element is at `q`. -/
structure Tip (depth : Nat) (ks : List ListClass) (t : Node) (q : List Nat) (e : Element) :
    Prop where
  /-- It is reached through last children. -/
  edge : t.edge (depth + 2 * ks.length) = some (q, e)
  /-- The open lists are on the way to it. -/
  openLists : OpenLists t ks q
  /-- If there are any, it is the last chunk's item, and has nothing but its text. -/
  last : ks ≠ [] → e.children.length = 1 ∧ (chunkPlaces t).getLast? = some q
  /-- If there are none, the last chunk is no item. -/
  other : ks = [] → ∀ q', (chunkPlaces t).getLast? = some q' → ¬ ItemAt t q'

variable {t n : Node} {p q : List Nat} {e : Element} {style : ListStyle} {x : String}
  {chunks : List String} {depth : Nat} {ks inner outer : List ListClass} {k : ListClass}

/-! ### Items that join a list -/

theorem getElem?_length_succ (p : List Nat) (i j : Nat) (r : List Nat) :
    (p ++ i :: j :: r)[p.length + 1]? = some j := by
  rw [List.getElem?_append_right (Nat.le_succ _), Nat.succ_sub (Nat.le_refl _), Nat.sub_self]
  rfl

/-- The open list of a class, with its last item. -/
theorem Tip.exists_list (h : Tip depth (inner ++ k :: outer) t q e) :
    ∃ p i j r style e', q = p ++ i :: j :: r ∧
      t.edge (depth + 2 * outer.length + 1) = some (p ++ [i], e') ∧ e'.children.length = j + 1 ∧
      style.listClass = k ∧ ListAt t (p ++ [i]) style ∧ k ∉ outer ∧ OpenLists t outer p := by
  obtain ⟨p, i, j, r, style, rfl, hr, hopen, hk, hclass, hlist⟩ := h.openLists.exists_of_append
  have hlength := (Node.get?_of_edge h.edge).2
  simp only [List.length_append, List.length_cons, hr] at hlength
  obtain ⟨e', hedge, hindex⟩ := Node.edge_take h.edge (m := p.length + 1)
    (by simp only [List.length_append, List.length_cons]; omega)
  obtain ⟨j', hj, hchildren⟩ := hindex
    (by simp only [List.length_append, List.length_cons]; omega)
  rw [List.take_length_add_append] at hedge
  obtain rfl : j = j' := Option.some.inj ((getElem?_length_succ p i j r).symm.trans hj)
  have hdepth : depth + 2 * outer.length + 1 = p.length + 1 := by omega
  exact ⟨p, i, j, r, style, e', rfl, by rw [hdepth]; exact hedge, hchildren, hclass, hlist, hk, hopen⟩

theorem exists_listStyle (h : itemClass? x = some k) :
    ∃ style, listStyle? x.toList = some style ∧ style.listClass = k :=
  Option.map_eq_some_iff.1 h

/-- Where an item gets that joins a list. -/
theorem Tip.nextItem_join (h : Tip depth (inner ++ k :: outer) t q e) (hapart : Apart t)
    (hclass : style.listClass = k) {r : List Nat} (hr : (chunkPlaces t).getLast? = some r) :
    NextItem t (Node.attach (depth + 2 * outer.length + 1) (itemElement x).toNode t)
      ((chunkPlaces t).length - 1) r style := by
  obtain ⟨-, hlast⟩ := h.last (by simp)
  obtain rfl : q = r := Option.some.inj (hlast.symm.trans hr)
  have hq := h.openLists.itemAt (by simp)
  obtain ⟨p, i, j, r, first, e', rfl, hedge, hlength, hfirst, hlist, -, -⟩ := h.exists_list
  have hgrow := Node.has_attach_self hedge (itemElement x).toNode
  have hway : (p ++ i :: j :: r).take (p.length + 1) = p ++ [i] := List.take_length_add_append ..
  have hplaces := chunkPlaces_attach hedge (places_itemElement x)
  rw [hlength] at hplaces
  refine ⟨fun m j' first' hj hlist' hclass' ↦ ?_, fun hnone ↦ ?_⟩
  · -- the list on the way is the open one
    have hm : m = p.length + 1 := by
      refine hapart.eq (hlist'.of_mono hgrow hq) (hway.symm ▸ hlist)
        (hclass'.trans (hclass.trans hfirst.symm)) ?_ ?_
      · exact Nat.le_of_lt (List.getElem?_eq_some_iff.1 hj).1
      · simp
    subst hm
    obtain rfl : j = j' := Option.some.inj ((getElem?_length_succ p i j r).symm.trans hj)
    have hnew := (itemAt_itemElement x).of_has (Node.has_attach hedge (itemElement x).toNode)
    have hbefore := Node.bareAt_eq_none_of_edge hedge []
    rw [hlength] at hnew hbefore
    rw [hway, hplaces]
    exact ⟨getElem?_after_last hlast _, hnew, hbefore⟩
  · -- there is one
    exact absurd (hfirst.trans hclass.symm) (hnone (p.length + 1) first
      (by rw [hway]; exact hlist.mono hgrow))

theorem Nested.join (h : Nested chunks t)
    (hresult : (CatalogEntry.outline.parse chunks).result = some (.ok t))
    (htip : Tip depth (inner ++ k :: outer) t q e) (hx : itemClass? x = some k) :
    Nested (chunks ++ [x])
      (Node.attach (depth + 2 * outer.length + 1) (itemElement x).toNode t) := by
  obtain ⟨style, hstyle, hclass⟩ := exists_listStyle hx
  obtain ⟨p, i, j, r, first, e', -, hedge, hlength, hfirst, hlist, -, -⟩ := htip.exists_list
  have hget := (Node.get?_of_edge hedge).1
  refine h.attach hresult hedge (places_itemElement x) (fun _ _ ↦ wellShaped_of_get?_itemElement)
    (wellShaped_append_item hget (h.shapes _ _ hget) hlist x) (fun _ ↦ ⟨?_, ?_⟩)
    (h.apart.attach hedge fun q style hlist ↦ absurd hlist not_listAt_itemElement) ?_
  · exact Node.has_attach hedge _
  · refine ⟨p ++ [i], e'.children.length, style, first, rfl, hstyle,
      hlist.mono (Node.has_attach_self hedge _), hclass.trans hfirst.symm, fun hzero ↦ ?_⟩
    rw [hlength] at hzero
    cases hzero
  · intro r style' hr _ hstyle'
    obtain rfl : style = style' := Option.some.inj (hstyle.symm.trans hstyle')
    exact htip.nextItem_join h.apart hclass hr

/-- The new item is the last one. -/
theorem Tip.join (h : Tip depth (inner ++ k :: outer) t q e) (x : String) :
    ∃ q', Tip depth (k :: outer)
      (Node.attach (depth + 2 * outer.length + 1) (itemElement x).toNode t) q' (itemElement x) := by
  obtain ⟨p, i, j, r, first, e', -, hedge, -, rfl, hlist, hk, hopen⟩ := h.exists_list
  have hgrow := Node.has_attach_self hedge (itemElement x).toNode
  have hnew := (itemAt_itemElement x).of_has (Node.has_attach hedge (itemElement x).toNode)
  have hpos : p ++ [i] ++ [e'.children.length] = p ++ [i, e'.children.length] := by simp
  refine ⟨p ++ [i] ++ [e'.children.length], ?_, ?_, fun _ ↦ ⟨?_, ?_⟩, fun hnil ↦ nomatch hnil⟩
  · exact Node.edge_attach_add hedge (itemElement x).toNode 0
  -- the lists around it are open as before, and those inside are not
  · rw [hpos] at hnew ⊢
    exact .item (hopen.mono hgrow) hk (hlist.mono hgrow) hnew
  · obtain ⟨a, value, hchildren⟩ := exists_itemElement x
    rw [hchildren]
    rfl
  · rw [chunkPlaces_attach hedge (places_itemElement x), List.getLast?_concat]

/-! ### Items that start a list -/

/-- Where an item gets that starts a list in another item. -/
theorem Tip.nextItem_start (h : Tip depth ks t q e) (hclass : style.listClass ∉ ks)
    {r : List Nat} (hr : (chunkPlaces t).getLast? = some r) (hitem : ItemAt t r) :
    NextItem t (Node.attach (depth + 2 * ks.length) (listNode style x) t)
      ((chunkPlaces t).length - 1) r style := by
  have hks : ks ≠ [] := fun hnil ↦ h.other hnil r hr hitem
  obtain ⟨hlength, hlast⟩ := h.last hks
  obtain rfl : q = r := Option.some.inj (hlast.symm.trans hr)
  have hgrow := Node.has_attach_self h.edge (listNode style x)
  have hplaces := chunkPlaces_attach h.edge (places_listNode style x)
  have hnew := Node.has_attach h.edge (listNode style x)
  have hbefore := Node.bareAt_eq_none_of_edge h.edge []
  rw [hlength] at hplaces hnew hbefore
  refine ⟨fun m j first _ hlist hfirst ↦ ?_, fun _ ↦ ?_⟩
  · -- no list on the way is of this class
    exact absurd (hfirst ▸ h.openLists.listClass_mem (hlist.of_mono hgrow hitem)) hclass
  · have hfirst := (itemAt_itemElement x).of_has (hnew.trans (has_listNode style x))
    rw [List.append_assoc] at hfirst
    rw [hplaces]
    exact ⟨getElem?_after_last hlast _, hfirst, hnew.bareAt, hbefore⟩

theorem Nested.start (h : Nested chunks t)
    (hresult : (CatalogEntry.outline.parse chunks).result = some (.ok t))
    (htip : Tip depth ks t q e) (hstyle : listStyle? x.toList = some style)
    (hk : style.listClass ∉ ks) :
    Nested (chunks ++ [x]) (Node.attach (depth + 2 * ks.length) (listNode style x) t) := by
  have hget := (Node.get?_of_edge htip.edge).1
  have hnew := Node.has_attach htip.edge (listNode style x)
  have he : WellShaped (e.append (listNode style x)).toNode := by
    by_cases hks : ks = []
    · subst hks
      exact wellShaped_append_of_otherAt hget htip.openLists.otherAt_end _
    · exact wellShaped_append_list hget (h.shapes _ _ hget) (htip.openLists.itemAt hks)
        (htip.last hks).1 style x
  refine h.attach hresult htip.edge (places_listNode style x)
    (fun _ _ ↦ wellShaped_of_get?_listNode) he (fun _ ↦ ⟨?_, ?_⟩)
    (h.apart.attach htip.edge fun q' style' hlist ↦ ?_) ?_
  · have hitem := hnew.trans (has_listNode style x)
    rw [List.append_assoc] at hitem
    exact hitem
  · refine ⟨q ++ [e.children.length], 0, style, style, by simp, hstyle, hnew.bareAt, rfl,
      fun _ ↦ rfl⟩
  · obtain ⟨rfl, rfl⟩ := eq_of_listAt_listNode hlist
    refine ⟨rfl, fun m first hfirst hclass ↦ hk ?_⟩
    exact hclass ▸ htip.openLists.listClass_mem hfirst
  · intro r style' hr hitem hstyle'
    obtain rfl : style = style' := Option.some.inj (hstyle.symm.trans hstyle')
    exact htip.nextItem_start hk hr hitem

/-- The first item of the new list is the last one. -/
theorem Tip.start (h : Tip depth ks t q e) (hk : style.listClass ∉ ks) (x : String) :
    ∃ q', Tip depth (style.listClass :: ks)
      (Node.attach (depth + 2 * ks.length) (listNode style x) t) q' (itemElement x) := by
  have hgrow := Node.has_attach_self h.edge (listNode style x)
  have hnew := Node.has_attach h.edge (listNode style x)
  have hfirst := (itemAt_itemElement x).of_has (hnew.trans (has_listNode style x))
  rw [List.append_assoc] at hfirst
  refine ⟨q ++ [e.children.length, 0], ?_, ?_, fun _ ↦ ⟨?_, ?_⟩, fun hnil ↦ nomatch hnil⟩
  · exact Node.edge_attach_add h.edge (listNode style x) 1
  · exact .item (h.openLists.mono hgrow) hk hnew.bareAt hfirst
  · obtain ⟨a, value, hchildren⟩ := exists_itemElement x
    rw [hchildren]
    rfl
  · rw [chunkPlaces_attach h.edge (places_listNode style x), List.getLast?_concat]

/-! ### Other elements -/

/-- A plain element is attached to a section, and is no list and no item. -/
theorem Tip.exists_section (h : Tip depth ks t q e) {d : Nat} (hd : d ≤ depth) :
    ∃ e', t.edge d = some (q.take d, e') ∧ ∀ m, OtherAt t ((q.take d).take m) := by
  obtain ⟨e', hedge, -⟩ := Node.edge_take h.edge (Nat.le_trans hd (Nat.le_add_right _ _))
  refine ⟨e', hedge, fun m ↦ ?_⟩
  rw [List.take_take]
  exact h.openLists.otherAt (Node.get?_of_edge h.edge).2 (Nat.le_trans (Nat.min_le_right _ _) hd)

theorem IsPlain.exists_element (h : IsPlain n) : ∃ e : Element, n = e.toNode :=
  h.imp fun _ he ↦ he.1

theorem IsPlain.not_listAt (h : IsPlain n) : ¬ ListAt n q style :=
  fun hlist ↦ (h.otherAt hlist).not_listAt hlist

theorem IsPlain.wellShaped (h : IsPlain n) {m : Node} (hm : n.get? q = some m) : WellShaped m := by
  obtain ⟨e, rfl, hkind, hchildren⟩ := h
  rcases get?_of_texts hchildren hm with ⟨-, rfl⟩ | ⟨s, rfl⟩
  · exact wellShaped_of_ne _ _ (not_mem_plainKinds hkind)
  · trivial

/-- It is where it was attached. -/
theorem IsPlain.otherAt_attach (h : IsPlain n) (hedge : t.edge depth = some (p, e)) :
    OtherAt (Node.attach depth n t) (p ++ [e.children.length]) := by
  obtain ⟨b, hb, hkind⟩ := h.otherAt (Node.bareAt_nil n)
  have hnew := Node.has_attach hedge n [] b hb
  rw [List.append_nil] at hnew
  exact ⟨b, hnew, hkind⟩

theorem Nested.plain (h : Nested chunks t)
    (hresult : (CatalogEntry.outline.parse chunks).result = some (.ok t))
    (htip : Tip depth ks t q e) (hx : ks ≠ [] → itemClass? x = none) (hn : IsPlain n) {d : Nat}
    (hd : d ≤ depth) : Nested (chunks ++ [x]) (Node.attach d n t) := by
  obtain ⟨e', hedge, hother⟩ := htip.exists_section hd
  have hend := hother d
  rw [List.take_take, Nat.min_self] at hend
  refine h.attach hresult hedge hn.places (fun _ _ ↦ hn.wellShaped)
    (wellShaped_append_of_otherAt (Node.get?_of_edge hedge).1 hend n)
    (fun hitem ↦ absurd hitem (hn.otherAt_attach hedge).not_itemAt)
    (h.apart.attach hedge fun _ _ hlist ↦ absurd hlist hn.not_listAt) fun r style hr hitem hstyle ↦ ?_
  -- no item comes next: the last chunk is none, or this one is none
  by_cases hks : ks = []
  · exact absurd hitem (htip.other hks r hr)
  · have hnone := hx hks
    rw [itemClass?, hstyle] at hnone
    cases hnone

/-- No lists are open behind it. -/
theorem Tip.plain (h : Tip depth ks t q e) (hn : IsPlain n) {d d' : Nat} (hd : d ≤ depth)
    (hd' : d' = d ∨ d' = d + 1) : ∃ q' e', Tip d' [] (Node.attach d n t) q' e' := by
  obtain ⟨e', hedge, hother⟩ := h.exists_section hd
  have hgrow := Node.has_attach_self hedge n
  have hlast : ∀ r, (chunkPlaces (Node.attach d n t)).getLast? = some r →
      ¬ ItemAt (Node.attach d n t) r := by
    intro r hr
    rw [chunkPlaces_attach hedge hn.places, List.getLast?_concat] at hr
    cases hr
    exact (hn.otherAt_attach hedge).not_itemAt
  rcases hd' with rfl | rfl
  · exact ⟨_, _, Node.edge_attach hedge n, .sections fun m ↦ (hother m).mono hgrow,
      fun hnil ↦ absurd rfl hnil, fun _ ↦ hlast⟩
  · obtain ⟨e₀, rfl⟩ := hn.exists_element
    refine ⟨_, e₀, Node.edge_attach_add hedge e₀.toNode 0, .sections fun m ↦ ?_,
      fun hnil ↦ absurd rfl hnil, fun _ ↦ hlast⟩
    rcases Nat.lt_or_ge (q.take d).length m with hm | hm
    · rw [List.take_of_length_le (by rw [List.length_append]; exact hm)]
      exact hn.otherAt_attach hedge
    · rw [List.take_append_of_le_length hm]
      exact (hother m).mono hgrow

/-! ### Runs -/

theorem get?_blank {m : Node} (h : (Element.ofKind "body").toNode.get? q = some m) :
    q = [] ∧ m = (Element.ofKind "body").toNode := by
  rcases q with _ | ⟨i, q⟩
  · exact ⟨rfl, (Option.some.inj h).symm⟩
  · cases h

theorem nested_blank : Nested [] (Element.ofKind "body").toNode where
  beginnings _ hi := absurd hi (Nat.not_lt_zero _)
  length := rfl
  shapes p n hn := by
    obtain ⟨-, rfl⟩ := get?_blank hn
    exact wellShaped_of_ne _ _ (by decide)
  items _ _ hq := nomatch hq
  apart p r style style' hlist := by
    obtain ⟨n, hn, hbare⟩ := Node.exists_get?_of_bareAt hlist
    obtain ⟨-, rfl⟩ := get?_blank hn
    have hkind : "body" = "ordered-list" := congrArg Node.kind hbare
    exact absurd hkind (by decide)
  next _ _ hq := nomatch hq

theorem tip_blank :
    Tip 0 [] (Element.ofKind "body").toNode [] (Element.ofKind "body") where
  edge := rfl
  openLists := .sections fun m ↦ by
    rw [List.take_nil]
    exact ⟨_, rfl, by decide⟩
  last hnil := absurd rfl hnil
  other _ _ hlast := nomatch hlast

/-- Every chunk keeps the lists nested. -/
theorem Reads.nested {σ : StateStack State} (h : Reads chunks σ ks t) :
    Nested chunks t ∧ ∃ q e, Tip σ.below.length ks t q e := by
  induction h with
  | blank => exact ⟨nested_blank, [], _, tip_blank⟩
  | @step _ _ _ _ _ _ _ x _ h hstep _ ih =>
    obtain ⟨hnested, q, e, htip⟩ := ih
    cases hstep with
    | join hx hks _ =>
      subst hks
      obtain ⟨q', htip'⟩ := htip.join x
      exact ⟨hnested.join h.result htip hx, q', _, htip'⟩
    | start hstyle hk =>
      obtain ⟨q', htip'⟩ := htip.start hk x
      exact ⟨hnested.start h.result htip hstyle hk, q', _, htip'⟩
    | plain hx _ hn hd hd' => exact ⟨hnested.plain h.result htip hx hn hd, htip.plain hn hd hd'⟩

/-- The lists of an outline nest. -/
structure ListsNest (chunks : List String) (t : Node) : Prop extends Nested chunks t where
  /-- A list has the style of its first item, and all its items are of this style's class. -/
  lists : ∀ p attributes children, t.get? p = some (.element "ordered-list" attributes children) →
    ∃ first : ListStyle, attributes = NameTable.empty.insert "type" first.name ∧
      ∀ j < children.length, ∃ (i : Nat) (x : String) (style : ListStyle),
        (chunkPlaces t)[i]? = some (p ++ [j]) ∧ chunks[i]? = some x ∧ ItemOf t x (p ++ [j]) ∧
        listStyle? x.toList = some style ∧ style.listClass = first.listClass ∧
        (j = 0 → style = first)

/-- A child of a list is the item of its chunk. -/
theorem Nested.exists_item (h : Nested chunks t) {attributes : Attributes} {children : List Node}
    (hlist : t.get? p = some (.element "ordered-list" attributes children)) {j : Nat}
    (hj : j < children.length) : ∃ (i : Nat) (x : String) (style first : ListStyle),
      (chunkPlaces t)[i]? = some (p ++ [j]) ∧ chunks[i]? = some x ∧ ItemOf t x (p ++ [j]) ∧
      listStyle? x.toList = some style ∧ ListAt t p first ∧ style.listClass = first.listClass ∧
      (j = 0 → style = first) := by
  have hitems := ((h.shapes p _ hlist).1 rfl).2
  have hitem : ItemAt t (p ++ [j]) := by
    have hkind := hitems children[j] (List.getElem_mem hj)
    have hget : t.bareAt (p ++ [j]) = some children[j].bare := by
      rw [Node.bareAt_append, hlist, Option.bind_some, Node.bareAt_cons]
      show (children[j]?.bind fun c ↦ c.bareAt []) = _
      rw [List.getElem?_eq_getElem hj, Option.bind_some, Node.bareAt_nil]
    rcases hc : children[j] with value | ⟨kind, a, cs⟩ <;> rw [hc] at hkind hget
    · exact absurd hkind (by simp [Node.kind])
    · obtain rfl : kind = "list-item" := hkind
      exact ⟨a, hget⟩
  obtain ⟨attributes', hb⟩ := hitem
  have hplace : p ++ [j] ∈ chunkPlaces t := Node.mem_places hb List.mem_cons_self
  obtain ⟨i, hi⟩ := List.getElem?_of_mem hplace
  obtain ⟨x, hx, hof⟩ := h.items i _ hi ⟨attributes', hb⟩
  obtain ⟨p', j', style, first, heq, hstyle, hfirst, hclass, hzero⟩ := hof.list
  obtain ⟨rfl, hjj⟩ := List.append_inj' heq rfl
  cases hjj
  exact ⟨i, x, style, first, hi, hx, hof, hstyle, hfirst, hclass, hzero⟩

theorem Nested.listsNest (h : Nested chunks t) : ListsNest chunks t where
  toNested := h
  lists p attributes children hlist := by
    have hpos := List.length_pos_of_ne_nil ((h.shapes p _ hlist).1 rfl).1
    obtain ⟨_, _, _, first, -, -, -, -, hfirst, -, -⟩ := h.exists_item hlist hpos
    refine ⟨first, ?_, fun j hj ↦ ?_⟩
    · rw [ListAt, Node.bareAt_of_get? hlist, Option.some.injEq] at hfirst
      cases hfirst
      rfl
    · obtain ⟨i, x, style, first', hi, hx, hof, hstyle, hfirst', hrest⟩ := h.exists_item hlist hj
      obtain rfl := hfirst.eq hfirst'
      exact ⟨i, x, style, hi, hx, hof, hstyle, hrest⟩

/-- **Lists nest by class.** In every outline that is parsed, a list item after another joins the
list of its class on the way to that one, and if there is none it starts a list inside it. So all
items of a list are of its class, and its style is the first one's; an item has a text and one list
at most; and no class comes twice on the way to any node. -/
theorem lists_nest {chunks : List String} {t : Node}
    (h : (CatalogEntry.outline.parse chunks).result = some (.ok t)) : ListsNest chunks t := by
  obtain ⟨σ, ks, hreads⟩ := exists_reads h
  exact hreads.nested.1.listsNest

/-- Three lists inside each other, and the next item of the outermost one. -/
theorem lists_nest_three :
    ∃ t, t = .element "body" .empty
        [.element "ordered-list" (NameTable.empty.insert "type" "decimal")
          [.element "list-item" (NameTable.empty.insert "ordinal" "1")
            [.text "one",
              .element "ordered-list" (NameTable.empty.insert "type" "lower-alpha")
                [.element "list-item" (NameTable.empty.insert "ordinal" "a")
                  [.text "inner",
                    .element "ordered-list" (NameTable.empty.insert "type" "lower-roman")
                      [.element "list-item" (NameTable.empty.insert "ordinal" "iv")
                        [.text "deep"]]]]],
            .element "list-item" (NameTable.empty.insert "ordinal" "02") [.text "two"]],
          .element "paragraph" .empty [.text "All done."]] ∧
      (CatalogEntry.outline.parse
        ["1. one", "a) inner", "iv. deep", "02. two", "All done."]).result = some (.ok t) ∧
      ListsNest ["1. one", "a) inner", "iv. deep", "02. two", "All done."] t :=
  ⟨_, rfl, rfl, lists_nest rfl⟩

end FragmentParser.Outline
