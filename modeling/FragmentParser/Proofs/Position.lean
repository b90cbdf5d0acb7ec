import FragmentParser.Proofs.Edge

/-!
# Positions in trees

A position is the list of indices on the way from the root to a node. A tree that grows at its right
edge **keeps its positions**: what is attached comes behind everything else in document order, and a
node that is there already stays where it is and changes in nothing but its children.

So the history of a document can be read off the finished tree, and what was once true of a position
stays true if it speaks of the nodes on the way to it, without their children (`Node.bareAt`).

* `Node.edge depth t` is the position of the element that is reached through `depth` last children,
  and this element: where `Node.attach depth` attaches.
* `Node.Has t p n` says that `n` is at a position of `t`, where it may have got further children.
* `Node.places kinds t` are the positions of the elements of some kinds in document order, and
  `Node.elementsOf kinds t` these elements.
-/

namespace FragmentParser.Node

/-! ### The node at a position -/

/-- The node at a position. -/
def get? : Node → List Nat → Option Node
  | n, [] => some n
  | n, i :: p => n.children[i]?.bind fun c ↦ c.get? p

/-- A node without its children. -/
def bare : Node → Node
  | .text value => .text value
  | .element kind attributes _ => .element kind attributes []

/-- The node at a position, without its children. -/
def bareAt (t : Node) (p : List Nat) : Option Node := (t.get? p).map bare

@[simp] theorem get?_nil (t : Node) : t.get? [] = some t := by
  rw [get?]

theorem get?_cons (t : Node) (i : Nat) (p : List Nat) :
    t.get? (i :: p) = t.children[i]?.bind fun c ↦ c.get? p := by
  rw [get?]

@[simp] theorem bareAt_nil (t : Node) : t.bareAt [] = some t.bare := by
  rw [bareAt, get?_nil]
  rfl

theorem bareAt_cons (t : Node) (i : Nat) (p : List Nat) :
    t.bareAt (i :: p) = t.children[i]?.bind fun c ↦ c.bareAt p := by
  rw [bareAt, get?_cons]
  cases t.children[i]? <;> rfl

theorem get?_append (t : Node) (p q : List Nat) :
    t.get? (p ++ q) = (t.get? p).bind fun c ↦ c.get? q := by
  induction p generalizing t with
  | nil => simp
  | cons i p ih =>
    rw [List.cons_append, get?_cons, get?_cons]
    cases t.children[i]? with
    | none => rfl
    | some c => exact ih c

/-- A position other than the root's is that of a child. -/
theorem exists_get?_of_concat {t n : Node} {p : List Nat} {i : Nat} (h : t.get? (p ++ [i]) = some n) :
    ∃ parent, t.get? p = some parent ∧ parent.children[i]? = some n := by
  rw [get?_append] at h
  obtain ⟨parent, hparent, hn⟩ := Option.bind_eq_some_iff.1 h
  rw [get?_cons] at hn
  obtain ⟨child, hchild, heq⟩ := Option.bind_eq_some_iff.1 hn
  rw [get?_nil] at heq
  exact ⟨parent, hparent, heq ▸ hchild⟩

theorem bareAt_append (t : Node) (p q : List Nat) :
    t.bareAt (p ++ q) = (t.get? p).bind fun c ↦ c.bareAt q := by
  rw [bareAt, get?_append]
  cases t.get? p <;> rfl

theorem bareAt_of_get? {t n : Node} {p : List Nat} (h : t.get? p = some n) :
    t.bareAt p = some n.bare := by
  rw [bareAt, h]
  rfl

theorem exists_get?_of_bareAt {t b : Node} {p : List Nat} (h : t.bareAt p = some b) :
    ∃ n, t.get? p = some n ∧ n.bare = b :=
  Option.map_eq_some_iff.1 h

/-- There are nodes all the way to a node. -/
theorem exists_bareAt_of_append {t b : Node} {p q : List Nat} (h : t.bareAt (p ++ q) = some b) :
    ∃ b', t.bareAt p = some b' := by
  rw [bareAt_append] at h
  obtain ⟨n, hn, -⟩ := Option.bind_eq_some_iff.1 h
  exact ⟨n.bare, bareAt_of_get? hn⟩

/-! ### The right edge -/

/-- The position that is reached through `depth` last children, if there is an element, and this
element. -/
def edge : Nat → Node → Option (List Nat × Element)
  | _, .text _ => none
  | 0, .element kind attributes children => some ([], ⟨kind, attributes, children⟩)
  | depth + 1, .element _ _ children =>
    children.getLast?.bind fun last ↦
      (edge depth last).map fun (p, e) ↦ ((children.length - 1) :: p, e)

@[simp] theorem edge_succ_concat (depth : Nat) (kind : String) (attributes : Attributes)
    (children : List Node) (last : Node) :
    edge (depth + 1) (.element kind attributes (children ++ [last])) =
      (edge depth last).map fun (p, e) ↦ (children.length :: p, e) := by
  simp [edge]

/-- One step down the right edge. -/
theorem exists_of_edge_succ {depth : Nat} {t : Node} {p : List Nat} {e : Element}
    (h : edge (depth + 1) t = some (p, e)) :
    ∃ kind attributes children last q, t = .element kind attributes (children ++ [last]) ∧
      edge depth last = some (q, e) ∧ p = children.length :: q := by
  cases t with
  | text value => cases h
  | element kind attributes children =>
    rcases List.eq_nil_or_concat children with rfl | ⟨front, last, rfl⟩
    · cases h
    · rw [List.concat_eq_append, edge_succ_concat] at h
      obtain ⟨⟨q, e'⟩, hq, heq⟩ := Option.map_eq_some_iff.1 h
      cases heq
      exact ⟨kind, attributes, front, last, q, by rw [List.concat_eq_append], hq, rfl⟩

/-- At depth zero is the root. -/
theorem eq_of_edge_zero {t : Node} {p : List Nat} {e : Element} (h : edge 0 t = some (p, e)) :
    p = [] ∧ t = e.toNode := by
  cases t with
  | text value => cases h
  | element kind attributes children =>
    cases h
    exact ⟨rfl, rfl⟩

theorem get?_of_edge {depth : Nat} {t : Node} {p : List Nat} {e : Element}
    (h : edge depth t = some (p, e)) : t.get? p = some e.toNode ∧ p.length = depth := by
  induction depth generalizing t p with
  | zero =>
    obtain ⟨rfl, rfl⟩ := eq_of_edge_zero h
    exact ⟨get?_nil _, rfl⟩
  | succ depth ih =>
    obtain ⟨kind, attributes, children, last, q, rfl, hq, rfl⟩ := exists_of_edge_succ h
    obtain ⟨hget, hlength⟩ := ih hq
    refine ⟨?_, by rw [List.length_cons, hlength]⟩
    rw [get?_cons]
    show ((children ++ [last])[children.length]?.bind fun c ↦ c.get? q) = _
    rw [List.getElem?_concat_length, Option.bind_some, hget]

/-- The right edge passes through the elements above, whose last children it goes on with. -/
theorem edge_take {depth m : Nat} {t : Node} {p : List Nat} {e : Element}
    (h : edge depth t = some (p, e)) (hm : m ≤ depth) :
    ∃ e', edge m t = some (p.take m, e') ∧
      (m < depth → ∃ i, p[m]? = some i ∧ e'.children.length = i + 1) := by
  induction m generalizing depth t p with
  | zero =>
    cases t with
    | text value => cases depth <;> cases h
    | element kind attributes children =>
      refine ⟨⟨kind, attributes, children⟩, rfl, fun hlt ↦ ?_⟩
      obtain ⟨depth, rfl⟩ : ∃ d, depth = d + 1 := ⟨depth - 1, by omega⟩
      obtain ⟨_, _, front, last, q, heq, -, rfl⟩ := exists_of_edge_succ h
      cases heq
      exact ⟨front.length, rfl, by simp⟩
  | succ m ih =>
    obtain ⟨depth, rfl⟩ : ∃ d, depth = d + 1 := ⟨depth - 1, by omega⟩
    obtain ⟨kind, attributes, children, last, q, rfl, hq, rfl⟩ := exists_of_edge_succ h
    obtain ⟨e', he', hindex⟩ := ih hq (by omega)
    refine ⟨e', by rw [edge_succ_concat, he']; rfl, fun hlt ↦ ?_⟩
    obtain ⟨i, hi, hlength⟩ := hindex (by omega)
    exact ⟨i, by rw [List.getElem?_cons_succ, hi], hlength⟩

/-! ### What attaching does to positions -/

@[simp] theorem bare_attach (depth : Nat) (n t : Node) : (attach depth n t).bare = t.bare := by
  cases t with
  | text value => rw [attach_text]
  | element kind attributes children => cases depth <;> rfl

/-- The children of an element at the edge are followed by the node that is attached. -/
theorem edge_attach {depth : Nat} {t : Node} {p : List Nat} {e : Element}
    (h : edge depth t = some (p, e)) (n : Node) :
    edge depth (attach depth n t) = some (p, e.append n) := by
  induction depth generalizing t p with
  | zero =>
    obtain ⟨rfl, rfl⟩ := eq_of_edge_zero h
    rfl
  | succ depth ih =>
    obtain ⟨kind, attributes, children, last, q, rfl, hq, rfl⟩ := exists_of_edge_succ h
    rw [attach_succ_concat, edge_succ_concat, ih hq]
    rfl

/-- From there the edge goes on into this node. -/
theorem edge_attach_add {depth : Nat} {t : Node} {p : List Nat} {e : Element}
    (h : edge depth t = some (p, e)) (n : Node) (inner : Nat) :
    edge (depth + 1 + inner) (attach depth n t) =
      (edge inner n).map fun (q, e') ↦ (p ++ e.children.length :: q, e') := by
  induction depth generalizing t p with
  | zero =>
    obtain ⟨rfl, rfl⟩ := eq_of_edge_zero h
    rw [Nat.zero_add, Nat.add_comm]
    exact edge_succ_concat ..
  | succ depth ih =>
    obtain ⟨kind, attributes, children, last, q, rfl, hq, rfl⟩ := exists_of_edge_succ h
    have hdepth : depth + 1 + 1 + inner = depth + 1 + inner + 1 := by omega
    rw [attach_succ_concat, hdepth, edge_succ_concat, ih hq]
    cases edge inner n <;> rfl

/-- Every node stays where it is, and the nodes at other positions are those of the node that was
attached, which comes behind the children that were there. -/
theorem bareAt_attach {depth : Nat} {t : Node} {p : List Nat} {e : Element}
    (h : edge depth t = some (p, e)) {n b : Node} {r : List Nat} :
    (attach depth n t).bareAt r = some b ↔
      t.bareAt r = some b ∨ ∃ q, r = p ++ e.children.length :: q ∧ n.bareAt q = some b := by
  -- down the edge: a position either leaves it, where nothing changes, or follows it
  induction depth generalizing t p r with
  | zero =>
    obtain ⟨rfl, rfl⟩ := eq_of_edge_zero h
    obtain ⟨kind, attributes, children⟩ := e
    rcases r with _ | ⟨i, r⟩
    · simp [Element.toNode, bare]
    · rw [bareAt_cons, bareAt_cons]
      show ((children ++ [n])[i]?.bind fun c ↦ c.bareAt r) = some b ↔
        (children[i]?.bind fun c ↦ c.bareAt r) = some b ∨ ∃ q, i :: r = children.length :: q ∧ _
      rcases Nat.lt_trichotomy i children.length with hi | rfl | hi
      · rw [List.getElem?_append_left hi]
        simp [Nat.ne_of_lt hi]
      · rw [List.getElem?_concat_length]
        simp
      · rw [List.getElem?_eq_none (by rw [List.length_append, List.length_singleton]; omega),
          List.getElem?_eq_none (Nat.le_of_lt hi)]
        simp [Nat.ne_of_gt hi]
  | succ depth ih =>
    obtain ⟨kind, attributes, front, last, q', rfl, hq, rfl⟩ := exists_of_edge_succ h
    rw [attach_succ_concat]
    rcases r with _ | ⟨i, r⟩
    · simp [bare]
    · rw [bareAt_cons, bareAt_cons]
      show ((front ++ [attach depth n last])[i]?.bind fun c ↦ c.bareAt r) = some b ↔
        ((front ++ [last])[i]?.bind fun c ↦ c.bareAt r) = some b ∨
          ∃ q, i :: r = front.length :: (q' ++ e.children.length :: q) ∧ _
      rcases Nat.lt_trichotomy i front.length with hi | rfl | hi
      · rw [List.getElem?_append_left hi, List.getElem?_append_left hi]
        simp [Nat.ne_of_lt hi]
      · rw [List.getElem?_concat_length, List.getElem?_concat_length, Option.bind_some,
          Option.bind_some, ih hq]
        simp
      · rw [List.getElem?_eq_none (by rw [List.length_append, List.length_singleton]; omega),
          List.getElem?_eq_none (by rw [List.length_append, List.length_singleton]; omega)]
        simp [Nat.ne_of_gt hi]

/-- Where the node is attached there was nothing before. -/
theorem bareAt_eq_none_of_edge {depth : Nat} {t : Node} {p : List Nat} {e : Element}
    (h : edge depth t = some (p, e)) (q : List Nat) :
    t.bareAt (p ++ e.children.length :: q) = none := by
  rw [bareAt_append, (get?_of_edge h).1, Option.bind_some, bareAt_cons]
  show (e.children[e.children.length]?.bind fun c ↦ c.bareAt q) = none
  rw [List.getElem?_eq_none (Nat.le_refl _)]
  rfl

/-- At the position is a node, with its children and possibly further ones behind them. -/
def Has (t : Node) (p : List Nat) (n : Node) : Prop :=
  ∀ r b, n.bareAt r = some b → t.bareAt (p ++ r) = some b

theorem Has.bareAt {t n : Node} {p : List Nat} (h : t.Has p n) : t.bareAt p = some n.bare := by
  have hroot := h [] n.bare (bareAt_nil n)
  rwa [List.append_nil] at hroot

theorem Has.trans {t u n : Node} {p q : List Nat} (h : t.Has p u) (hn : u.Has q n) :
    t.Has (p ++ q) n := by
  intro r b hb
  rw [List.append_assoc]
  exact h _ b (hn r b hb)

theorem has_of_get? {t n : Node} {p : List Nat} (h : t.get? p = some n) : t.Has p n := by
  intro r b hb
  rw [bareAt_append, h]
  exact hb

/-- The tree before is a part of the tree after. -/
theorem has_attach_self {depth : Nat} {t : Node} {p : List Nat} {e : Element}
    (h : edge depth t = some (p, e)) (n : Node) : (attach depth n t).Has [] t :=
  fun _ _ hb ↦ (bareAt_attach h).2 (.inl hb)

/-- The node that was attached comes behind the children that were there. -/
theorem has_attach {depth : Nat} {t : Node} {p : List Nat} {e : Element}
    (h : edge depth t = some (p, e)) (n : Node) :
    (attach depth n t).Has (p ++ [e.children.length]) n := by
  intro r b hb
  rw [List.append_assoc]
  exact (bareAt_attach h).2 (.inr ⟨r, rfl, hb⟩)

/-- What a part holds at its positions does not change. -/
theorem Has.bareAt_eq {t u b b' : Node} {p r : List Nat} (h : t.Has p u) (hu : u.bareAt r = some b')
    (ht : t.bareAt (p ++ r) = some b) : u.bareAt r = some b := by
  rw [h r b' hu] at ht
  rw [hu, ht]

/-- A property of nodes that looks at no more than their children without these ones' children holds
throughout the tree if it does throughout its parts and holds of the element that was added to. -/
theorem forall_get?_attach {P : Node → Prop}
    (hbare : ∀ {kind attributes front c c'}, bare c = bare c' →
      P (.element kind attributes (front ++ [c])) → P (.element kind attributes (front ++ [c'])))
    {depth : Nat} {t : Node} {p : List Nat} {e : Element} (h : edge depth t = some (p, e)) {n : Node}
    (ht : ∀ q m, t.get? q = some m → P m) (hn : ∀ q m, n.get? q = some m → P m)
    (he : P (e.append n).toNode) : ∀ q m, (attach depth n t).get? q = some m → P m := by
  induction depth generalizing t p with
  | zero =>
    obtain ⟨rfl, rfl⟩ := eq_of_edge_zero h
    obtain ⟨kind, attributes, children⟩ := e
    intro q m hm
    rcases q with _ | ⟨i, q⟩
    · cases hm
      exact he
    · have hsub := ht (i :: q) m
      rw [get?_cons] at hm hsub
      change ((children ++ [n])[i]?.bind fun c ↦ c.get? q) = some m at hm
      change (children[i]?.bind fun c ↦ c.get? q) = some m → P m at hsub
      rcases Nat.lt_trichotomy i children.length with hi | rfl | hi
      · rw [List.getElem?_append_left hi] at hm
        exact hsub hm
      · rw [List.getElem?_concat_length] at hm
        exact hn q m hm
      · rw [List.getElem?_eq_none (by rw [List.length_append, List.length_singleton]; omega)] at hm
        cases hm
  | succ depth ih =>
    obtain ⟨kind, attributes, front, last, q', rfl, hq, rfl⟩ := exists_of_edge_succ h
    rw [attach_succ_concat]
    intro q m hm
    rcases q with _ | ⟨i, q⟩
    -- an element above the one that is added to has a last child that looks as before
    · cases hm
      exact hbare (bare_attach depth n last).symm (ht [] _ (get?_nil _))
    · have hsub := ht (i :: q) m
      rw [get?_cons] at hm hsub
      change ((front ++ [attach depth n last])[i]?.bind fun c ↦ c.get? q) = some m at hm
      change ((front ++ [last])[i]?.bind fun c ↦ c.get? q) = some m → P m at hsub
      rcases Nat.lt_trichotomy i front.length with hi | rfl | hi
      · rw [List.getElem?_append_left hi] at hm hsub
        exact hsub hm
      · rw [List.getElem?_concat_length] at hm
        refine ih hq (fun r m hr ↦ ht (front.length :: r) m ?_) q m hm
        rw [get?_cons]
        show ((front ++ [last])[front.length]?.bind fun c ↦ c.get? r) = some m
        rw [List.getElem?_concat_length]
        exact hr
      · rw [List.getElem?_eq_none (by rw [List.length_append, List.length_singleton]; omega)] at hm
        cases hm

/-! ### Document order -/

mutual

/-- The positions of the elements of the given kinds, in document order. -/
def places (kinds : List String) : Node → List (List Nat)
  | .text _ => []
  | .element kind _ children =>
    (if kind ∈ kinds then [[]] else []) ++ placesFrom kinds 0 children

/-- The positions in a list of children, of which the first has index `i`. -/
def placesFrom (kinds : List String) (i : Nat) : List Node → List (List Nat)
  | [] => []
  | n :: ns => (places kinds n).map (i :: ·) ++ placesFrom kinds (i + 1) ns

end

theorem placesFrom_concat (kinds : List String) (i : Nat) (children : List Node) (n : Node) :
    placesFrom kinds i (children ++ [n]) =
      placesFrom kinds i children ++ (places kinds n).map ((i + children.length) :: ·) := by
  induction children generalizing i with
  | nil => simp [placesFrom]
  | cons c children ih =>
    rw [List.cons_append, placesFrom, ih, placesFrom, List.append_assoc, List.length_cons]
    congr 3
    funext p
    congr 1
    omega

/-- What is attached comes last in document order. -/
theorem places_attach {depth : Nat} {t : Node} {p : List Nat} {e : Element}
    (h : edge depth t = some (p, e)) (kinds : List String) (n : Node) :
    places kinds (attach depth n t) =
      places kinds t ++ (places kinds n).map fun q ↦ p ++ e.children.length :: q := by
  induction depth generalizing t p with
  | zero =>
    obtain ⟨rfl, rfl⟩ := eq_of_edge_zero h
    obtain ⟨kind, attributes, children⟩ := e
    show places kinds (.element kind attributes (children ++ [n])) = _
    rw [places, placesFrom_concat, Element.toNode, places, List.append_assoc, Nat.zero_add]
    rfl
  | succ depth ih =>
    obtain ⟨kind, attributes, front, last, q', rfl, hq, rfl⟩ := exists_of_edge_succ h
    rw [attach_succ_concat, places, placesFrom_concat, ih hq, places, placesFrom_concat]
    simp

mutual

/-- At these positions are elements of these kinds. -/
theorem exists_of_mem_places (kinds : List String) :
    (t : Node) → (p : List Nat) → p ∈ places kinds t → ∃ n, t.get? p = some n ∧ n.kind ∈ kinds
  | .text value, p, h => absurd h List.not_mem_nil
  | .element kind attributes children, p, h => by
    rw [places] at h
    rcases List.mem_append.1 h with h | h
    · split at h
      · next hkind =>
        rw [List.mem_singleton.1 h]
        exact ⟨_, get?_nil _, hkind⟩
      · cases h
    · obtain ⟨j, q, rfl, n, hn, hkind⟩ := exists_of_mem_placesFrom kinds 0 children p h
      refine ⟨n, ?_, hkind⟩
      rw [get?_cons, Nat.zero_add]
      exact hn

theorem exists_of_mem_placesFrom (kinds : List String) (i : Nat) :
    (children : List Node) → (p : List Nat) → p ∈ placesFrom kinds i children → ∃ j q,
      p = (i + j) :: q ∧ ∃ n, (children[j]?.bind fun c ↦ c.get? q) = some n ∧ n.kind ∈ kinds
  | [], p, h => absurd h List.not_mem_nil
  | c :: children, p, h => by
    rw [placesFrom] at h
    rcases List.mem_append.1 h with h | h
    · obtain ⟨q, hq, rfl⟩ := List.mem_map.1 h
      obtain ⟨n, hn, hkind⟩ := exists_of_mem_places kinds c q hq
      exact ⟨0, q, rfl, n, hn, hkind⟩
    · obtain ⟨j, q, rfl, n, hn, hkind⟩ := exists_of_mem_placesFrom kinds (i + 1) children p h
      exact ⟨j + 1, q, by rw [Nat.add_assoc, Nat.add_comm 1], n, hn, hkind⟩

end

theorem mem_placesFrom {kinds : List String} {children : List Node} {c : Node} {j : Nat}
    {q : List Nat} (hc : children[j]? = some c) (hq : q ∈ places kinds c) (i : Nat) :
    (i + j) :: q ∈ placesFrom kinds i children := by
  induction children generalizing i j with
  | nil => cases hc
  | cons c' children ih =>
    rw [placesFrom]
    rcases j with _ | j
    · cases hc
      exact List.mem_append_left _ (List.mem_map.2 ⟨q, hq, rfl⟩)
    · have hrest := ih hc (i + 1)
      rw [Nat.add_assoc, Nat.add_comm 1] at hrest
      exact List.mem_append_right _ hrest

/-- And all elements of these kinds are at such positions. -/
theorem mem_places {kinds : List String} {t : Node} {p : List Nat} {kind : String}
    {attributes : Attributes} (h : t.bareAt p = some (.element kind attributes []))
    (hkind : kind ∈ kinds) : p ∈ places kinds t := by
  induction p generalizing t with
  | nil =>
    rw [bareAt_nil] at h
    cases t with
    | text value => cases h
    | element kind' attributes' children =>
      cases h
      rw [places, if_pos hkind]
      exact List.mem_append_left _ (List.mem_singleton.2 rfl)
  | cons i p ih =>
    rw [bareAt_cons] at h
    obtain ⟨c, hc, hp⟩ := Option.bind_eq_some_iff.1 h
    cases t with
    | text value => cases hc
    | element kind' attributes' children =>
      rw [places]
      have hmem := mem_placesFrom hc (ih hp) 0
      rw [Nat.zero_add] at hmem
      exact List.mem_append_right _ hmem

/-- The elements of the given kinds, in document order. -/
def elementsOf (kinds : List String) (t : Node) : List Node := (t.places kinds).filterMap t.get?

/-- What is in the last of some children, seen from the element. -/
theorem filterMap_placesFrom (kinds : List String) (kind : String) (attributes : Attributes)
    (front children : List Node) :
    (placesFrom kinds front.length children).filterMap
        (Node.element kind attributes (front ++ children)).get? =
      children.flatMap (elementsOf kinds) := by
  induction children generalizing front with
  | nil => rfl
  | cons c children ih =>
    have hfirst : (Node.element kind attributes (front ++ c :: children)).get? ∘
        (front.length :: ·) = c.get? := by
      funext q
      show (Node.element kind attributes (front ++ c :: children)).get? (front.length :: q) = _
      rw [get?_cons, Node.children, List.getElem?_append_right (Nat.le_refl _), Nat.sub_self]
      rfl
    have hrest := ih (front ++ [c])
    rw [List.length_append, List.length_singleton, List.append_assoc, List.singleton_append] at hrest
    rw [placesFrom, List.filterMap_append, List.filterMap_map, hrest, hfirst, List.flatMap_cons]
    rfl

/-- Document order: the element itself and then what is in its children, one after the other. -/
theorem elementsOf_element (kinds : List String) (kind : String) (attributes : Attributes)
    (children : List Node) :
    elementsOf kinds (.element kind attributes children) =
      (if kind ∈ kinds then [.element kind attributes children] else []) ++
        children.flatMap (elementsOf kinds) := by
  have hinside := filterMap_placesFrom kinds kind attributes [] children
  rw [elementsOf, places, List.filterMap_append]
  congr 1
  split <;> rfl

@[simp] theorem elementsOf_text (kinds : List String) (value : String) :
    elementsOf kinds (.text value) = [] := rfl

/-- Wherever an element of these kinds is, it is among them. -/
theorem mem_elementsOf {kinds : List String} {t : Node} {p : List Nat} {kind : String}
    {attributes : Attributes} {children : List Node}
    (h : t.get? p = some (.element kind attributes children)) (hkind : kind ∈ kinds) :
    .element kind attributes children ∈ t.elementsOf kinds := by
  have hplace : p ∈ places kinds t := mem_places (bareAt_of_get? h) hkind
  exact List.mem_filterMap.2 ⟨p, hplace, h⟩

end FragmentParser.Node
