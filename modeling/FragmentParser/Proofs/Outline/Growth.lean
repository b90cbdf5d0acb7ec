import FragmentParser.Proofs.Outline.Frames

/-!
# How the tree of an outline grows

Closed as they are, the open elements of a parse are a tree (`Pile.tree`), and its right edge goes
through all of them (`Pile.exists_edge`). To close a frame leaves this tree as it is. Every other
move takes a chunk and attaches one node to the innermost open element, in which there is **one
place for the chunk** (`Move.grows`).

So what a parse has built at any moment is there in the end, at the same positions (`Moves.has`),
the place of a chunk is known as soon as it is taken (`Moves.place`), and the tree of a moment is
the document of the chunks taken until then (`result_take`). Every chunk has such a moment
(`exists_taking`), so what becomes of it can be told from one step.
-/

namespace FragmentParser

namespace Pile

/-- Close an element as it is, and then those around it. -/
def closeAll (e : Element) : List Element → Node
  | [] => e.toNode
  | e' :: es => closeAll (e'.append e.toNode) es

/-- The tree of the open elements. -/
def tree (w : Pile Element) : Node := closeAll w.top w.below

variable {e e' : Element} {es : List Element} {p : List Nat}

/-- What is added to the innermost element is attached to the tree. -/
theorem tree_append (e : Element) (es : List Element) (n : Node) :
    (⟨e.append n, es⟩ : Pile Element).tree =
      Node.attach es.length n (⟨e, es⟩ : Pile Element).tree := by
  induction es generalizing e n with
  | nil => rfl
  | cons e' es ih =>
    show (⟨e'.append (e.append n).toNode, es⟩ : Pile Element).tree =
      Node.attach (es.length + 1) n (⟨e'.append e.toNode, es⟩ : Pile Element).tree
    have hinner : Node.attach 0 n e.toNode = (e.append n).toNode := rfl
    rw [ih, ih, ← hinner]
    exact (Node.attach_attach es.length 0 n e.toNode _).symm

/-- An element that is put on top is on the edge behind the children of the one around it. -/
theorem edge_tree_cons (h : (⟨e', es⟩ : Pile Element).tree.edge es.length = some (p, e'))
    (e : Element) : (⟨e, e' :: es⟩ : Pile Element).tree.edge (es.length + 1) =
      some (p ++ [e'.children.length], e) := by
  have htree : (⟨e, e' :: es⟩ : Pile Element).tree =
      Node.attach es.length e.toNode (⟨e', es⟩ : Pile Element).tree := tree_append e' es e.toNode
  rw [htree]
  exact Node.edge_attach_add h e.toNode 0

/-- The innermost element is on the right edge of the tree. -/
theorem exists_edge (w : Pile Element) :
    ∃ p, w.tree.edge w.below.length = some (p, w.top) := by
  obtain ⟨e, es⟩ := w
  induction es generalizing e with
  | nil => exact ⟨[], rfl⟩
  | cons e' es ih =>
    obtain ⟨p, hp⟩ := ih e'
    exact ⟨_, edge_tree_cons hp e⟩

end Pile

namespace Outline

/-- From one configuration to the other the tree stays, or it gets a node with the place of the head
chunk. -/
inductive Grows (c c' : Config) : Prop where
  /-- A frame is closed. -/
  | closed : c'.work.tree = c.work.tree → c'.rest = c.rest → Grows c c'
  /-- The head chunk is taken. -/
  | taken {x : String} {n : Node} {r : List Nat} : c.rest = x :: c'.rest →
      c'.work.tree = Node.attach c.work.below.length n c.work.tree → chunkPlaces n = [r] →
      Grows c c'

variable {chunks : List String} {s s' : State} {e e' : Element} {n : Node} {c c' : Config}
  {x : String} {xs : List String} {p r : List Nat}

/-! ### Moves -/

/-- An element with nothing but text in it has the place of one chunk. -/
theorem chunkPlaces_of_texts {kind : String} {attributes : Attributes} {children : List Node}
    (hkind : kind ∈ chunkKinds) (h : OfTexts (.element kind attributes children)) :
    chunkPlaces (.element kind attributes children) = [[]] :=
  places_of_texts attributes h hkind

theorem Leaf.chunkPlaces (h : Leaf x s s' n) : chunkPlaces n = [[]] := by
  have hchunk : ∀ kind ∈ leafKinds, kind ∈ chunkKinds := by decide
  obtain ⟨kind, hkind, attributes, value, rfl⟩ := h.exists_text
  exact chunkPlaces_of_texts (hchunk kind hkind) (ofTexts_singleton _ _ _)

/-- Every move closes a frame, or attaches the node of a chunk. -/
theorem Move.grows (h : Move c c') : Grows c c' := by
  cases h with
  | close => exact .closed rfl rfl
  | redirect => exact .closed rfl rfl
  | leaf hleaf => exact .taken rfl (Pile.tree_append _ _ _) hleaf.chunkPlaces
  | @opened s s' ss e e' es x xs hopens =>
    exact .taken rfl (Pile.tree_append e es e'.toNode)
      (chunkPlaces_of_texts hopens.kind_mem_chunkKinds hopens.ofTexts)
  | @list s ss e e' es x xs k hs hx he =>
    obtain ⟨style, hstyle, -⟩ := Option.map_eq_some_iff.1 hx
    have hlist : (e'.append (itemElement x).toNode).toNode = listNode style x := by
      rw [listElement, Option.bind_some, hstyle] at he
      cases he
      rfl
    exact .taken rfl (Pile.tree_append e es _) (hlist ▸ places_listNode style x)

/-! ### Runs -/

theorem Grows.has (h : Grows c c') : c'.work.tree.Has [] c.work.tree := by
  obtain ⟨p, hedge⟩ := c.work.exists_edge
  cases h with
  | closed htree => exact fun _ _ hb ↦ htree ▸ hb
  | taken _ htree => exact htree ▸ Node.has_attach_self hedge _

/-- What was built is there in the end. -/
theorem Moves.has (h : Moves c c') : c'.work.tree.Has [] c.work.tree := by
  induction h with
  | refl => exact fun _ _ hb ↦ hb
  | tail _ hmove ih => exact hmove.grows.has.trans ih

/-- The places of the chunks do not change. -/
theorem Moves.places_prefix (h : Moves c c') :
    chunkPlaces c.work.tree <+: chunkPlaces c'.work.tree := by
  induction h with
  | refl => exact List.prefix_rfl
  | @tail c₁ c₂ _ hmove ih =>
    obtain ⟨p, hedge⟩ := c₁.work.exists_edge
    cases hmove.grows with
    | closed htree => rwa [htree]
    | taken _ htree hplace =>
      rw [htree, chunkPlaces_attach hedge hplace]
      exact ih.trans (List.prefix_append _ _)

/-- As many chunks are taken as have a place. -/
theorem Moves.exists_taken (h : Moves (beginning chunks) c) :
    ∃ taken, taken ++ c.rest = chunks ∧ (chunkPlaces c.work.tree).length = taken.length := by
  induction h with
  | refl => exact ⟨[], rfl, rfl⟩
  | @tail c₁ c₂ _ hmove ih =>
    obtain ⟨taken, hchunks, hlength⟩ := ih
    obtain ⟨p, hedge⟩ := c₁.work.exists_edge
    cases hmove.grows with
    | closed htree hrest => exact ⟨taken, hrest ▸ hchunks, htree ▸ hlength⟩
    | @taken x n r hrest htree hplace =>
      refine ⟨taken ++ [x], ?_, ?_⟩
      · rw [List.append_assoc, List.singleton_append, ← hrest, hchunks]
      · rw [htree, chunkPlaces_attach hedge hplace, List.length_append, List.length_append, hlength]
        rfl

/-- The place of a chunk that is taken is where its node is attached. -/
theorem Moves.place {t : Node} {depth : Nat} (h : Moves c c')
    (hedge : t.edge depth = some (p, e)) (htree : c.work.tree = Node.attach depth n t)
    (hplace : chunkPlaces n = [r]) :
    (chunkPlaces c'.work.tree)[(chunkPlaces t).length]? = some (p ++ e.children.length :: r) ∧
      c'.work.tree.Has (p ++ [e.children.length]) n := by
  constructor
  · obtain ⟨later, hlater⟩ := h.places_prefix
    rw [← hlater, htree, chunkPlaces_attach hedge hplace]
    exact getElem?_append_of_some (List.getElem?_concat_length ..) _
  · exact h.has.trans (htree ▸ Node.has_attach hedge n)

/-! ### Beginnings -/

/-- At the end of the chunks frames are closed and nothing else. -/
theorem Moves.closed (h : Moves c c') (hrest : c.rest = []) :
    c'.rest = [] ∧ c'.work.tree = c.work.tree := by
  induction h with
  | refl => exact ⟨hrest, rfl⟩
  | tail _ hmove ih =>
    cases hmove.grows with
    | closed htree hsame => exact ⟨hsame.trans ih.1, htree.trans ih.2⟩
    | taken htaken => cases ih.1.symm.trans htaken

/-- What is built before a chunk is looked at does not depend on it. -/
theorem exists_shortened (hleads : design.Leads design.pile grammar (beginning chunks) c) :
    ∃ taken, taken ++ c.rest = chunks ∧
      (∀ ys, ys.head? = c.rest.head? → design.Leads design.pile grammar
        (beginning (taken ++ ys)) ⟨c.stack, c.work, ys⟩) ∧
      ∃ σ w, design.Leads design.pile grammar (beginning taken) ⟨σ, w, []⟩ ∧
        w.tree = c.work.tree := by
  -- the second part is for the first: a chunk that is taken need not be followed by another one
  induction hleads with
  | refl => exact ⟨[], rfl, fun ys _ ↦ .refl, _, _, .refl, rfl⟩
  | @tail b c hb hstep ih =>
    obtain ⟨taken, hchunks, hys, σ, w, hshort, htree⟩ := ih
    obtain ⟨hmoves, hstands⟩ := moves_of_leads (stands_beginning chunks) (hb.tail hstep)
    have hnext := next (moves_of_leads (stands_beginning chunks) hb).2
    rw [hstep] at hnext
    obtain ⟨hmove⟩ := hnext
    obtain ⟨τ, v, _ | ⟨x, xs⟩⟩ := b
    · obtain ⟨hrest, hsame⟩ := Moves.closed (.single hmove) rfl
      refine ⟨taken, by rw [hrest]; exact hchunks, fun ys hhead ↦ ?_, σ, w, hshort,
        htree.trans hsame.symm⟩
      obtain ⟨τ', v', zs⟩ := c
      obtain rfl : zs = [] := hrest
      obtain rfl := List.head?_eq_none_iff.1 hhead
      exact (hys [] rfl).tail hstep
    · rcases design.step_cons_cases _ _ hstep with ⟨hrest, hmore⟩ | ⟨hrest, hmore⟩
      · refine ⟨taken, by rw [hrest]; exact hchunks, fun ys hhead ↦ ?_, σ, w, hshort, ?_⟩
        · rw [hrest] at hhead
          obtain ⟨ys, rfl⟩ := List.head?_eq_some_iff.1 hhead
          exact (hys (x :: ys) rfl).tail (hmore ys)
        · cases hmove.grows with
          | closed hsame => exact htree.trans hsame.symm
          | taken htaken =>
            have hsame := hrest.symm.trans (List.cons_eq_cons.1 htaken).2.symm
            exact absurd hsame (List.cons_ne_self x xs)
      · refine ⟨taken ++ [x], by rw [hrest, List.append_assoc]; exact hchunks, fun ys _ ↦ ?_, ?_⟩
        · rw [List.append_assoc]
          exact (hys (x :: ys) rfl).tail (hmore ys)
        · exact ⟨c.stack, c.work, (hys [x] rfl).tail (hmore []), rfl⟩

/-- The tree of a moment is what comes of the chunks that are taken. -/
theorem result_take (hleads : design.Leads design.pile grammar (beginning chunks) c) :
    ∃ taken, taken ++ c.rest = chunks ∧ (chunkPlaces c.work.tree).length = taken.length ∧
      (CatalogEntry.outline.parse taken).result = some (.ok c.work.tree) := by
  obtain ⟨taken, hchunks, -, σ, w, hshort, htree⟩ := exists_shortened hleads
  have hmoves := (moves_of_leads (stands_beginning chunks) hleads).1
  obtain ⟨taken', hchunks', hlength⟩ := hmoves.exists_taken
  obtain rfl := List.append_cancel_right (hchunks.trans hchunks'.symm)
  obtain ⟨c', outcome, -, hmoves, -, hnext, hresult⟩ := exists_end hshort
  obtain ⟨hrest, hsame⟩ := hmoves.closed rfl
  refine ⟨taken, hchunks, hlength, ?_⟩
  rw [hresult, ← htree, ← hsame]
  cases hnext with
  | done => rfl
  | unmatched => cases hrest

/-! ### Chunks -/

/-- On the way to tree `t` chunk `i` is taken in the step from `c` to `c'`, where the innermost open
element is at `p`. -/
structure Taking (chunks : List String) (t : Node) (i : Nat) (c c' : Config) (p : List Nat) :
    Prop where
  /-- There the frames stand on top of each other. -/
  stands : Stands chunks c
  /-- Chunk `i` is the next one. -/
  rest : c.rest = chunks.drop i
  step : design.step design.pile grammar c = .inl c'
  /-- And it is taken. -/
  taken : c'.rest = chunks.drop (i + 1)
  /-- The tree grows on what is open. -/
  has : t.Has [] c.work.tree
  edge : c.work.tree.edge c.work.below.length = some (p, c.work.top)
  /-- In the tree the node that is attached is where it was attached. -/
  place : ∀ {n r}, c'.work.tree = Node.attach c.work.below.length n c.work.tree →
    chunkPlaces n = [r] → (chunkPlaces t)[i]? = some (p ++ c.work.top.children.length :: r) ∧
      t.Has (p ++ [c.work.top.children.length]) n

/-- Every chunk of a document is taken. -/
theorem exists_taking {t : Node} (h : (CatalogEntry.outline.parse chunks).result = some (.ok t))
    {i : Nat} (hi : i < chunks.length) : ∃ c c' p, Taking chunks t i c c' p := by
  obtain ⟨s, root, rfl, hleads⟩ := exists_leads_of_result h .refl
  have hchunks : (beginning chunks).rest = chunks.take i ++ chunks[i] :: chunks.drop (i + 1) := by
    rw [← List.drop_eq_getElem_cons hi]
    exact (List.take_append_drop i chunks).symm
  obtain ⟨c, c', hbefore, hstep, hafter, hrest, htaken⟩ := hleads.exists_taking rfl hchunks
  obtain ⟨hmoves, hstands⟩ := moves_of_leads (stands_beginning chunks) hbefore
  obtain ⟨hmove, hstands'⟩ := moves_of_leads hstands (.single hstep)
  have hlater := (moves_of_leads hstands' hafter).1
  obtain ⟨p, hedge⟩ := c.work.exists_edge
  have hlength : (chunkPlaces c.work.tree).length = i := by
    obtain ⟨taken, htaken, hlength⟩ := hmoves.exists_taken
    have hcount := congrArg List.length htaken
    rw [hrest, ← List.drop_eq_getElem_cons hi, List.length_append, List.length_drop] at hcount
    omega
  refine ⟨c, c', p, hstands, ?_, hstep, htaken, Moves.has (hmove.trans hlater), hedge,
    fun htree hplace ↦ ?_⟩
  · rw [hrest, List.drop_eq_getElem_cons hi]
  · rw [← hlength]
    exact hlater.place hedge htree hplace

end Outline

end FragmentParser
