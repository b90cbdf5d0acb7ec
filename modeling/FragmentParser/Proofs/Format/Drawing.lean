import FragmentParser.Format.Treeviz
import FragmentParser.Proofs.Position
import FragmentParser.Proofs.Text.Pieces

/-!
# A drawing has one line for each element

The lines of a drawing are those of the elements in document order (`Treeviz.render_eq_lines`). What
stands before an element's icon shows where it is: for every ancestor below the root, whether it has
later siblings, and then whether the element itself has (`Treeviz.lead`).

Lines are kept apart by line feeds, so there must be none in a label. `Treeviz.Unbroken` says that
there are none in what labels are made of; texts need not be looked at, as they are set as one line.

Then the drawing can be read back: from a line one reads how deep its element is
(`Treeviz.depthOf_line`), and from these depths in document order the shape of the tree
(`Treeviz.foldr_plant`), whatever its labels are.
-/

namespace FragmentParser.Format.Treeviz

open Text

/-! ### The elements in document order -/

mutual

/-- The positions of the elements of a tree, in document order. -/
def positions : Node → List (List Nat)
  | .text _ => []
  | .element _ _ children => [] :: positionsFrom 0 children

/-- The positions in a list of children, of which the first has index `i`. -/
def positionsFrom (i : Nat) : List Node → List (List Nat)
  | [] => []
  | n :: ns => (positions n).map (i :: ·) ++ positionsFrom (i + 1) ns

end

/-- An element follows among the siblings of the node at a position. -/
def HasLater (t : Node) (p : List Nat) : Prop :=
  ∃ q i k, ∃ e : Element, p = q ++ [i] ∧ i < k ∧ t.get? (q ++ [k]) = some e.toNode

theorem text?_eq_none_iff {n : Node} : n.text? = none ↔ ∃ e : Element, n = e.toNode := by
  constructor
  · intro h
    cases n with
    | text value => cases h
    | element kind attributes children => exact ⟨⟨kind, attributes, children⟩, rfl⟩
  · rintro ⟨e, rfl⟩
    rfl

/-- Later siblings are behind the node among the children of its parent. -/
theorem hasLater_concat {t n : Node} {q : List Nat} (h : t.get? q = some n) (i : Nat) :
    HasLater t (q ++ [i]) ↔ isLast (n.children.drop (i + 1)) = false := by
  have hchild : ∀ k, t.get? (q ++ [k]) = n.children[k]? := by
    intro k
    rw [Node.get?_append, h, Option.bind_some, Node.get?_cons]
    cases n.children[k]? <;> simp
  simp only [isLast, List.all_eq_false, Bool.not_eq_true, Option.isSome_eq_false_iff,
    Option.isNone_iff_eq_none, text?_eq_none_iff]
  constructor
  · rintro ⟨q', i', k, e, hp, hk, he⟩
    obtain ⟨rfl, rfl⟩ : q = q' ∧ i = i' := by simpa using hp
    refine ⟨e.toNode, ?_, e, rfl⟩
    rw [List.mem_iff_getElem?]
    refine ⟨k - (i + 1), ?_⟩
    rw [List.getElem?_drop, Nat.add_sub_cancel' hk, ← hchild, he]
  · rintro ⟨m, hm, e, rfl⟩
    obtain ⟨k, hk⟩ := List.mem_iff_getElem?.1 hm
    rw [List.getElem?_drop, ← hchild] at hk
    exact ⟨q, i, i + 1 + k, e, rfl, by omega, hk⟩

theorem hasLater_iff (t : Node) (p : List Nat) : HasLater t p ↔
    (p.getLast?.any fun i ↦ (t.get? p.dropLast).any fun n ↦
      !isLast (n.children.drop (i + 1))) = true := by
  rcases List.eq_nil_or_concat p with rfl | ⟨q, i, rfl⟩
  · simp [HasLater]
  · rw [List.concat_eq_append, List.getLast?_concat, List.dropLast_concat]
    cases hq : t.get? q with
    | none => simp [HasLater, Node.get?_append, hq]
    | some n => simp [hasLater_concat hq]

instance (t : Node) (p : List Nat) : Decidable (HasLater t p) :=
  decidable_of_iff' _ (hasLater_iff t p)

/-! ### Lines -/

/-- The margin of the children of the node at a position: a cell of two characters for each node
below the root on the way to this one, a bar if the node has later siblings. -/
def margin (t : Node) (p : List Nat) : List Char :=
  (List.range' 1 p.length).flatMap fun j ↦
    if HasLater t (p.take j) then ['│', ' '] else [' ', ' ']

/-- What stands before the icon of the element at a position. -/
def lead (t : Node) (p : List Nat) : List Char :=
  if p = [] then []
  else margin t p.dropLast ++ (if HasLater t p then ['├', '─', ' '] else ['└', '─', ' '])

/-- The line of the element at a position. -/
def line (width : Nat) (t : Node) (p : List Nat) : List Char :=
  ((t.get? p).bind Node.element?).elim [] fun e ↦
    lead t p ++ icon e.kind :: ' ' :: truncate width (label e)

variable {width : Nat} {t : Node} {q : List Nat}

theorem margin_concat (t : Node) (q : List Nat) (i : Nat) :
    margin t (q ++ [i]) =
      margin t q ++ if HasLater t (q ++ [i]) then ['│', ' '] else [' ', ' '] := by
  have hcells : (List.range' 1 q.length).map
        (fun j ↦ if HasLater t ((q ++ [i]).take j) then ['│', ' '] else [' ', ' ']) =
      (List.range' 1 q.length).map
        fun j ↦ if HasLater t (q.take j) then ['│', ' '] else [' ', ' '] := by
    refine List.map_congr_left fun j hj ↦ ?_
    have hj := (List.mem_range'_1.1 hj).2
    rw [List.take_append_of_le_length (by omega)]
  have hlast : (q ++ [i]).take (1 + 1 * q.length) = q ++ [i] :=
    List.take_of_length_le (by rw [List.length_append, List.length_singleton]; omega)
  rw [margin, margin, List.length_append, List.length_singleton, List.range'_concat,
    List.flatMap_append, List.flatMap_singleton, hlast, List.flatMap_def, hcells, List.flatMap_def]

/-- **The lines below an element** are those of the elements in its children, in document order. The
children are taken from the first one on; `front` are those before. -/
theorem childrenChars_eq (width : Nat) (t : Node) : (siblings : List Node) →
    {q : List Nat} → {kind : String} → {attributes : Attributes} → {front : List Node} →
    t.get? q = some (.element kind attributes (front ++ siblings)) →
    childrenChars width (margin t q) siblings =
      (positionsFrom front.length siblings).flatMap fun r ↦ line width t (q ++ r) ++ ['\n']
  | [], _, _, _, _, _ => by
    rw [childrenChars, positionsFrom, List.flatMap_nil]
  | .text value :: siblings, q, kind, attributes, front, h => by
    have hrest := childrenChars_eq width t siblings
      (show t.get? q = some (.element kind attributes ((front ++ [.text value]) ++ siblings)) by
        rwa [List.append_assoc])
    rw [childrenChars, positionsFrom, positions, List.map_nil, List.nil_append, hrest,
      List.length_append, List.length_singleton]
  | .element kind' attributes' children :: siblings, q, kind, attributes, front, h => by
    have hget : t.get? (q ++ [front.length]) =
        some (.element kind' attributes' ([] ++ children)) := by
      rw [Node.get?_append, h, Option.bind_some, Node.get?_cons, Node.children,
        List.getElem?_append_right (Nat.le_refl _), Nat.sub_self]
      exact Node.get?_nil _
    -- what is left of the siblings decides whether the element has later ones
    have hlater := hasLater_concat h front.length
    rw [Node.children, List.drop_append, List.drop_of_length_le (Nat.le_succ _), List.nil_append,
      Nat.add_sub_cancel_left, List.drop_one, List.tail_cons] at hlater
    have hinside := childrenChars_eq width t children hget
    have hrest := childrenChars_eq width t siblings
      (show t.get? q = some (.element kind attributes
        ((front ++ [.element kind' attributes' children]) ++ siblings)) by rwa [List.append_assoc])
    have hcell : cell (isLast siblings) =
        if HasLater t (q ++ [front.length]) then ['│', ' '] else [' ', ' '] := by
      cases hlast : isLast siblings <;> simp [cell, hlater, hlast]
    have hlead : lead t (q ++ [front.length]) =
        margin t q ++ connector (isLast siblings) ++ [' '] := by
      rw [lead, if_neg (by simp), List.dropLast_concat]
      cases hlast : isLast siblings <;> simp [connector, hlater, hlast]
    have hline : line width t (q ++ [front.length]) ++ ['\n'] =
        margin t q ++ connector (isLast siblings) ++
          ' ' :: head width ⟨kind', attributes', children⟩ := by
      rw [line, hget, hlead]
      simp [Node.element?, head]
    rw [childrenChars, hcell, ← margin_concat, ← hline, hinside, hrest, positionsFrom, positions]
    simp [List.flatMap_map]

/-- **A drawing has one line for each element**, in document order. -/
theorem render_eq_lines (width : Nat) (e : Element) :
    render width e.toNode =
      String.ofList ((positions e.toNode).flatMap fun p ↦ line width e.toNode p ++ ['\n']) := by
  have hchildren := childrenChars_eq width e.toNode e.children
    (show e.toNode.get? [] = some (.element e.kind e.attributes ([] ++ e.children)) from
      Node.get?_nil _)
  have hroot : line width e.toNode [] ++ ['\n'] = head width e := by
    rw [line, Node.get?_nil]
    simp [Element.toNode, Node.element?, lead, head]
  rw [Element.toNode] at *
  rw [render, positions, List.flatMap_cons, hroot]
  exact congrArg (fun cs ↦ String.ofList (head width e ++ cs)) hchildren

/-! ### The positions are those of the elements -/

mutual

/-- At each of the positions is an element, and each element is at one of them. -/
theorem mem_positions_iff : (t : Node) → (p : List Nat) →
    (p ∈ positions t ↔ ∃ e : Element, t.get? p = some e.toNode)
  | .text value, p => by
    rw [positions]
    cases p <;> simp [Node.get?_cons, Node.children, Element.toNode]
  | .element kind attributes children, p => by
    rw [positions, List.mem_cons, mem_positionsFrom_iff 0 children p]
    cases p with
    | nil => simpa using ⟨⟨kind, attributes, children⟩, rfl⟩
    | cons i p => simp [Node.get?_cons, Node.children, and_assoc]

theorem mem_positionsFrom_iff (i : Nat) : (ns : List Node) → (p : List Nat) →
    (p ∈ positionsFrom i ns ↔
      ∃ j q, p = (i + j) :: q ∧ ∃ e : Element, (ns[j]?.bind fun n ↦ n.get? q) = some e.toNode)
  | [], p => by
    rw [positionsFrom]
    simp
  | n :: ns, p => by
    rw [positionsFrom, List.mem_append, List.mem_map, mem_positionsFrom_iff (i + 1) ns p]
    constructor
    · rintro (⟨q, hq, rfl⟩ | ⟨j, q, rfl, he⟩)
      · exact ⟨0, q, rfl, (mem_positions_iff n q).1 hq⟩
      · exact ⟨j + 1, q, by rw [Nat.add_assoc, Nat.add_comm 1], he⟩
    · rintro ⟨_ | j, q, rfl, he⟩
      · exact .inl ⟨q, (mem_positions_iff n q).2 he, rfl⟩
      · exact .inr ⟨j, q, by rw [Nat.add_assoc, Nat.add_comm 1], he⟩

end

mutual

/-- Document order is the order of the positions: an element comes before what is in it, and that
before its later siblings. -/
theorem pairwise_positions : (t : Node) → (positions t).Pairwise (· < ·)
  | .text _ => .nil
  | .element kind attributes children => by
    rw [positions]
    refine .cons (fun p hp ↦ ?_) (pairwise_positionsFrom 0 children)
    obtain ⟨j, q, rfl, -⟩ := (mem_positionsFrom_iff 0 children p).1 hp
    exact List.nil_lt_cons _ _

theorem pairwise_positionsFrom (i : Nat) : (ns : List Node) →
    (positionsFrom i ns).Pairwise (· < ·)
  | [] => .nil
  | n :: ns => by
    rw [positionsFrom, List.pairwise_append]
    refine ⟨?_, pairwise_positionsFrom (i + 1) ns, ?_⟩
    · refine List.pairwise_map.2 ((pairwise_positions n).imp fun h ↦ ?_)
      exact List.cons_lt_cons_iff.2 (.inr ⟨rfl, h⟩)
    · intro p hp p' hp'
      obtain ⟨q, -, rfl⟩ := List.mem_map.1 hp
      obtain ⟨j, q', rfl, -⟩ := (mem_positionsFrom_iff (i + 1) ns p').1 hp'
      exact List.cons_lt_cons_iff.2 (.inl (by omega))

end

/-! ### Labels -/

/-- The attributes that labels show. -/
def labelNames : List String := ["title", "ordinal", "type"]

/-- There are no line feeds in the attributes that labels show. -/
def UnbrokenAttributes (attributes : Attributes) : Prop :=
  ∀ name ∈ labelNames, ∀ value ∈ attributes.get? name, '\n' ∉ value.toList

mutual

/-- There are no line feeds in the kinds of the elements of a tree and in the attributes that labels
show. -/
def Unbroken : Node → Prop
  | .text _ => True
  | .element kind attributes children =>
    '\n' ∉ kind.toList ∧ UnbrokenAttributes attributes ∧ AllUnbroken children

/-- So in all the trees. -/
def AllUnbroken : List Node → Prop
  | [] => True
  | n :: ns => Unbroken n ∧ AllUnbroken ns

end

theorem allUnbroken_iff {ns : List Node} : AllUnbroken ns ↔ ∀ n ∈ ns, Unbroken n := by
  induction ns with
  | nil => simp [AllUnbroken]
  | cons n ns ih => rw [AllUnbroken, ih, List.forall_mem_cons]

/-- What is in an unbroken tree is unbroken. -/
theorem Unbroken.get? {t n : Node} {p : List Nat} (ht : Unbroken t) (h : t.get? p = some n) :
    Unbroken n := by
  induction p generalizing t with
  | nil =>
    rw [Node.get?_nil] at h
    exact Option.some_inj.1 h ▸ ht
  | cons i p ih =>
    rw [Node.get?_cons] at h
    obtain ⟨c, hc, hn⟩ := Option.bind_eq_some_iff.1 h
    cases t with
    | text value => cases hc
    | element kind attributes children =>
      exact ih (allUnbroken_iff.1 ht.2.2 c (List.mem_of_getElem? hc)) hn

theorem notMem_decimalText (n : Nat) : '\n' ∉ (decimalText n).toList := by
  rw [decimalText, String.toList_ofList]
  intro h
  exact absurd (Nat.isDigit_of_mem_toDigits (by decide) (by decide) h) (by decide)

theorem notMem_numbered {e : Element} (he : Unbroken e.toNode) {s : String} (hs : '\n' ∉ s.toList) :
    '\n' ∉ (numbered e s).toList := by
  rw [numbered]
  split
  · next ordinal hordinal =>
    have h := he.2.1 "ordinal" (by decide) ordinal hordinal
    simp [h, hs]
  · exact hs

/-- A label has no line feeds. -/
theorem notMem_label {e : Element} (he : Unbroken e.toNode) : '\n' ∉ label e := by
  have hcaption : '\n' ∉ (caption e).toList := by
    rw [caption]
    split
    · have htype : '\n' ∉ ((e.attribute? "type").getD "decimal").toList := by
        cases h : e.attribute? "type" with
        | none => decide
        | some value => exact he.2.1 "type" (by decide) value h
      simp [htype, notMem_decimalText]
    · split
      · next title htitle => exact notMem_numbered he (he.2.1 "title" (by decide) title htitle)
      · exact notMem_numbered he (notMem_flow e.text)
  show '\n' ∉ if allBlank (caption e).toList then e.kind.toList else trim (caption e).toList
  split
  · exact he.1
  · exact fun h ↦ hcaption (mem_of_mem_trim h)

theorem notMem_truncate {width : Nat} {cs : List Char} (h : '\n' ∉ cs) :
    '\n' ∉ truncate width cs := by
  rw [truncate]
  split
  · have htake : '\n' ∉ cs.take width := fun hmem ↦ h (List.mem_of_mem_take hmem)
    simp [htake]
  · exact h

/-- The icons. -/
def icons : List Char := ['⧉', '§', '⊤', '¶', '𝒱', '☰', '•', '○']

theorem icon_mem (kind : String) : icon kind ∈ icons := by
  unfold icon
  repeat' split
  all_goals decide

theorem notMem_margin (t : Node) (q : List Nat) : '\n' ∉ margin t q := by
  rw [margin, List.mem_flatMap]
  rintro ⟨j, -, h⟩
  split at h <;> exact absurd h (by decide)

/-- There are no line feeds inside a line. -/
theorem notMem_line {t : Node} (ht : Unbroken t) (width : Nat) (p : List Nat) :
    '\n' ∉ line width t p := by
  rw [line]
  cases he : (t.get? p).bind Node.element? with
  | none => exact List.not_mem_nil
  | some e =>
    obtain ⟨n, hn, helement⟩ := Option.bind_eq_some_iff.1 he
    obtain rfl : n = e.toNode := by
      cases n with
      | text value => cases helement
      | element kind attributes children =>
        cases helement
        rfl
    have hlabel : '\n' ∉ truncate width (label e) := notMem_truncate (notMem_label (ht.get? hn))
    have hicon : '\n' ≠ icon e.kind := by
      intro h
      exact absurd (h ▸ icon_mem e.kind) (by decide)
    have hlead : '\n' ∉ lead t p := by
      rw [lead]
      split
      · exact List.not_mem_nil
      · rw [List.mem_append, not_or]
        refine ⟨notMem_margin t _, ?_⟩
        split <;> decide
    simp [hlabel, hicon, hlead]

/-! ### Reading a drawing -/

/-- How deep the element of a line is: one more than the line has cells, unless the line begins with
an icon. -/
def depthOf : List Char → Nat
  | '│' :: _ :: cs => depthOf cs + 1
  | ' ' :: _ :: cs => depthOf cs + 1
  | '├' :: _ => 1
  | '└' :: _ => 1
  | _ => 0

theorem depthOf_cells (js : List Nat) (P : Nat → Prop) [DecidablePred P] (cs : List Char) :
    depthOf ((js.flatMap fun j ↦ if P j then ['│', ' '] else [' ', ' ']) ++ cs) =
      js.length + depthOf cs := by
  induction js with
  | nil => simp
  | cons j js ih =>
    rw [List.flatMap_cons, List.append_assoc, List.length_cons]
    split <;> simp [depthOf, ih] <;> omega

theorem depthOf_icon {c : Char} (hc : c ∈ icons) (cs : List Char) : depthOf (c :: cs) = 0 := by
  simp only [icons, List.mem_cons, List.not_mem_nil, or_false] at hc
  rcases hc with rfl | rfl | rfl | rfl | rfl | rfl | rfl | rfl <;> cases cs <;> rfl

/-- The depth of an element is read from its line. -/
theorem depthOf_line {t : Node} {p : List Nat} (hp : p ∈ positions t) (width : Nat) :
    depthOf (line width t p) = p.length := by
  obtain ⟨e, he⟩ := (mem_positions_iff t p).1 hp
  rw [line, he, show (some e.toNode).bind Node.element? = some e from rfl, Option.elim_some, lead]
  rcases List.eq_nil_or_concat p with rfl | ⟨q, i, rfl⟩
  · rw [if_pos rfl, List.nil_append, depthOf_icon (icon_mem e.kind), List.length_nil]
  · rw [List.concat_eq_append, if_neg (by simp), List.dropLast_concat, margin, List.append_assoc,
      depthOf_cells]
    split <;> simp [depthOf]

/-- The shape of an element: the shapes of the elements in it. -/
inductive Shape where
  /-- An element with these elements in it. -/
  | node (children : List Shape)

mutual

/-- The shape of a tree, if it is an element. -/
def shapes : Node → List Shape
  | .text _ => []
  | .element _ _ children => [.node (shapesOf children)]

/-- The shapes of the elements among the nodes. -/
def shapesOf : List Node → List Shape
  | [] => []
  | n :: ns => shapes n ++ shapesOf ns

end

/-- Put an element before others, of which it takes those that are deeper as its children. -/
def plant (depth : Nat) (others : List (Nat × Shape)) : List (Nat × Shape) :=
  (depth, .node ((others.takeWhile fun s ↦ depth < s.1).map Prod.snd)) ::
    others.dropWhile fun s ↦ depth < s.1

theorem plant_append {depth : Nat} {others : List (Nat × Shape)}
    (h : ∀ s ∈ others.head?, s.1 ≤ depth) (children : List Shape) :
    plant depth (children.map (depth + 1, ·) ++ others) = (depth, .node children) :: others := by
  have hdeeper : ∀ s ∈ children.map (depth + 1, ·), decide (depth < s.1) = true := by
    simp
  have hend : ∀ s ∈ others.head?, decide (depth < s.1) = false := fun s hs ↦
    decide_eq_false (Nat.not_lt.2 (h s hs))
  obtain ⟨htake, hdrop⟩ := Text.takeWhile_dropWhile_eq_iff.2 ⟨rfl, hdeeper, hend⟩
  rw [plant, htake, hdrop]
  simp [Function.comp_def]

mutual

/-- The elements of a tree are planted from the last one to the first one. -/
theorem foldr_plant (depth : Nat) {others : List (Nat × Shape)}
    (h : ∀ s ∈ others.head?, s.1 ≤ depth) : (t : Node) →
    ((positions t).map fun p ↦ depth + p.length).foldr plant others =
      (shapes t).map (depth, ·) ++ others
  | .text _ => rfl
  | .element _ _ children => by
    have hchildren := foldr_plantFrom depth 0 (fun s hs ↦ Nat.le_succ_of_le (h s hs)) children
    rw [positions, List.map_cons, List.foldr_cons, hchildren, List.length_nil, Nat.add_zero,
      plant_append h, shapes]
    rfl

theorem foldr_plantFrom (depth i : Nat) {others : List (Nat × Shape)}
    (h : ∀ s ∈ others.head?, s.1 ≤ depth + 1) : (ns : List Node) →
    ((positionsFrom i ns).map fun p ↦ depth + p.length).foldr plant others =
      (shapesOf ns).map (depth + 1, ·) ++ others
  | [] => rfl
  | n :: ns => by
    -- the later siblings are planted first, and are not deeper than the element
    have hns := foldr_plantFrom depth (i + 1) h ns
    have hhead : ∀ s ∈ ((shapesOf ns).map (depth + 1, ·) ++ others).head?, s.1 ≤ depth + 1 := by
      cases shapesOf ns with
      | nil => exact h
      | cons s ss => simp
    have hn := foldr_plant (depth + 1) hhead n
    rw [positionsFrom, List.map_append, List.foldr_append, hns, List.map_map]
    have hlength : ((fun p : List Nat ↦ depth + p.length) ∘ (i :: ·)) =
        fun p ↦ depth + 1 + p.length := by
      funext p
      simp only [Function.comp_apply, List.length_cons]
      omega
    rw [hlength, hn, shapesOf, List.map_append, List.append_assoc]

end

/-- How deep the elements of a drawing are, line by line. -/
def depths (drawing : String) : List Nat :=
  (drawing.toList.splitOn '\n').dropLast.map depthOf

theorem depths_render {e : Element} (he : Unbroken e.toNode) (width : Nat) :
    depths (render width e.toNode) = (positions e.toNode).map List.length := by
  have hlines : ∀ l ∈ (positions e.toNode).map (line width e.toNode), '\n' ∉ l :=
    List.forall_mem_map.2 fun p _ ↦ notMem_line he width p
  have hsplit := splitOn_flatMap hlines
  rw [List.flatMap_map] at hsplit
  rw [depths, render_eq_lines, String.toList_ofList, hsplit, List.dropLast_concat, List.map_map]
  exact List.map_congr_left fun p hp ↦ depthOf_line hp width

/-- **The shape of a tree is read from its drawing.** -/
theorem shapes_eq_of_render_eq {width width' : Nat} {e e' : Element} (he : Unbroken e.toNode)
    (he' : Unbroken e'.toNode) (h : render width e.toNode = render width' e'.toNode) :
    shapes e.toNode = shapes e'.toNode := by
  have hplant (t : Node) : (((positions t).map List.length).foldr plant []).map Prod.snd =
      shapes t := by
    have hnone : ∀ s ∈ ([] : List (Nat × Shape)).head?, s.1 ≤ 0 := by simp
    have h := foldr_plant 0 hnone t
    simp only [Nat.zero_add] at h
    rw [h]
    simp [Function.comp_def]
  have hdepths := congrArg depths h
  rw [depths_render he, depths_render he'] at hdepths
  rw [← hplant e.toNode, hdepths, hplant]

end FragmentParser.Format.Treeviz
