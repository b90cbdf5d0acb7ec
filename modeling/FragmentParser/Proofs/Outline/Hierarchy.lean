import FragmentParser.Proofs.Outline.Frames

/-!
# Where headings and headers are

In an outline document subsections are in sections and subsubsections in subsections, always.
Sections and headers are in the body, **with one exception**: a subsection that meets `State A:`
puts the section around it into body state, and from then on this section takes what a body takes,
so that the headings and headers that follow are nested in it. That is the only way for a section to
get sections (`headings_nest`), and there is a document that takes it (`not_forall_section_at_top`).
-/

namespace FragmentParser.Outline

/-- Where headings and headers may be: the child has index `i` in its parent. -/
structure Placed (chunks : List String) (parent : Node) (i : Nat) (child : Node) : Prop where
  /-- No child is a body. -/
  ne_body : child.kind ≠ "body"
  /-- Subsections are in sections. -/
  subsection : child.kind = "subsection" → parent.kind = "section"
  /-- Subsubsections are in subsections. -/
  subsubsection : child.kind = "subsubsection" → parent.kind = "subsection"
  /-- Sections and headers are in the body, or in a section behind a subsection of it. In this case
  the document has a chunk that can put a section into body state. -/
  top : child.kind = "section" ∨ child.kind = "header" → parent.kind = "body" ∨
    parent.kind = "section" ∧ (∃ x ∈ chunks, beginsWith "State A:" x = true) ∧
      ∃ j < i, ∃ c, parent.children[j]? = some c ∧ c.kind = "subsection"

/-- The kinds of children that an element gets in a state. -/
def State.childKinds (s : State) : List String :=
  (if s = .body then ["header"] else []) ++ ["paragraph", "preformatted"] ++ s.innerKinds

variable {chunks : List String} {s s' : State} {e e' : Element} {n : Node} {x : String} {i : Nat}

/-! ### Sections in body state -/

theorem mem_rootStates_iff : s ∈ rootStates ↔ "body" ∈ s.kinds := by
  cases s <;> decide

theorem kind_of_mem_rootStates (h : s ∈ rootStates) :
    ∀ kind ∈ s.kinds, kind = "body" ∨ kind = "section" := by
  revert h
  cases s <;> decide

/-- Sections and items do not begin in a state of the root. -/
theorem Opens.not_mem_rootStates (h : Opens x s s' e) : s' ∉ rootStates := by
  cases h <;> decide

/-- A section in a state of the root has been put there, when a subsection of it was closed. -/
theorem Filled.exists_subsection (h : Filled chunks s e) (hs : s ∈ rootStates)
    (hkind : e.kind = "section") : (∃ x ∈ chunks, beginsWith "State A:" x = true) ∧
      ∃ c ∈ e.children, c.kind = "subsection" := by
  have hmore : ∀ {e : Element} {n : Node}, (∃ c ∈ e.children, c.kind = "subsection") →
      ∃ c ∈ (e.append n).children, c.kind = "subsection" := by
    rintro e n ⟨c, hc, hkind⟩
    exact ⟨c, List.mem_append_left _ hc, hkind⟩
  induction h with
  | body => exact absurd hkind (by decide)
  | opened hopens => exact absurd hs hopens.not_mem_rootStates
  | list _ he =>
    rw [(kind_listElement he).1] at hkind
    exact absurd hkind (by decide)
  | leaf _ hleaf ih =>
    rw [mem_rootStates_iff, hleaf.kinds_eq, ← mem_rootStates_iff] at hs
    exact (ih hs hkind).imp id hmore
  | child _ _ _ ih => exact (ih hs hkind).imp id hmore
  | redirected _ hinner hchunk =>
    exact ⟨hchunk, _, List.mem_append_right _ List.mem_cons_self, List.mem_singleton.1 hinner.kind⟩

/-! ### Children -/

theorem Leaf.kind (h : Leaf x s s' n) : n.kind ∈ s.childKinds := by
  have hplain : ∀ kind ∈ ["paragraph", "preformatted"], kind ∈ s.childKinds :=
    fun _ hkind ↦ List.mem_append_left _ (List.mem_append_right _ hkind)
  cases h with
  | paragraph | stateA | stateB | stateC => exact hplain "paragraph" (by decide)
  | preformatted => exact hplain "preformatted" (by decide)
  | header => exact List.mem_cons_self

/-- The next child is placed as the state of the frame has it. -/
theorem Filled.placed_next (h : Filled chunks s e) (hkind : n.kind ∈ s.childKinds) :
    Placed chunks (e.append n).toNode e.children.length n where
  ne_body hbody := by
    have hkinds : "body" ∉ s.childKinds := by
      cases s <;> decide
    exact hkinds (hbody ▸ hkind)
  subsection hsub := by
    have hkinds : "subsection" ∈ s.childKinds → s.kinds = ["section"] := by
      cases s <;> decide
    exact List.mem_singleton.1 (hkinds (hsub ▸ hkind) ▸ h.kind)
  subsubsection hsub := by
    have hkinds : "subsubsection" ∈ s.childKinds → s.kinds = ["subsection"] := by
      cases s <;> decide
    exact List.mem_singleton.1 (hkinds (hsub ▸ hkind) ▸ h.kind)
  top htop := by
    have hstates : "section" ∈ s.childKinds ∨ "header" ∈ s.childKinds → s ∈ rootStates := by
      cases s <;> decide
    have hs : s ∈ rootStates := by
      rcases htop with hsection | hheader
      · exact hstates (.inl (hsection ▸ hkind))
      · exact hstates (.inr (hheader ▸ hkind))
    rcases kind_of_mem_rootStates hs _ h.kind with hbody | hsection
    · exact .inl hbody
    · obtain ⟨hchunk, c, hc, hsub⟩ := h.exists_subsection hs hsection
      obtain ⟨j, hj⟩ := List.mem_iff_getElem?.1 hc
      have hlt := (List.getElem?_eq_some_iff.1 hj).1
      exact .inr ⟨hsection, hchunk, j, hlt, c, getElem?_append_of_some hj _, hsub⟩

/-- The children that were there stay placed. -/
theorem Placed.append (hnew : Placed chunks (e.append n).toNode e.children.length n)
    (hold : ∀ i c, e.toNode.children[i]? = some c → Placed chunks e.toNode i c) :
    ∀ i c, (e.append n).toNode.children[i]? = some c → Placed chunks (e.append n).toNode i c := by
  intro i c hc
  rcases getElem?_concat_cases hc with hc | ⟨rfl, rfl⟩
  · have h := hold i c hc
    refine ⟨h.ne_body, h.subsection, h.subsubsection, fun hkind ↦ ?_⟩
    rcases h.top hkind with hbody | ⟨hsection, hchunk, j, hj, c', hc', hkind'⟩
    · exact .inl hbody
    · exact .inr ⟨hsection, hchunk, j, hj, c', getElem?_append_of_some hc' _, hkind'⟩
  · exact hnew

/-- Text may be anywhere. -/
theorem OfTexts.placed (h : OfTexts n) {c : Node} (hc : n.children[i]? = some c) :
    Placed chunks n i c := by
  obtain ⟨value, rfl⟩ := h c (List.mem_of_getElem? hc)
  have htext : ∀ kind ∈ ["body", "section", "subsection", "subsubsection", "header"],
      "text" ≠ kind := by
    decide
  refine ⟨htext _ (by decide), fun h ↦ absurd h (htext _ (by decide)),
    fun h ↦ absurd h (htext _ (by decide)), ?_⟩
  rintro (h | h) <;> exact absurd h (htext _ (by decide))

/-- In an element that a frame has filled all children are placed. -/
theorem Filled.placed (h : Filled chunks s e) :
    ∀ i c, e.toNode.children[i]? = some c → Placed chunks e.toNode i c := by
  induction h with
  | body => exact fun _ _ ↦ (ofTexts_of_children_eq_nil rfl).placed
  | opened hopens => exact fun _ _ ↦ hopens.ofTexts.placed
  | @list k x e _ he =>
    have hnil : e.toNode.children = [] := (kind_listElement he).2
    exact fun _ _ ↦ (ofTexts_of_children_eq_nil hnil).placed
  | leaf h hleaf ih => exact (h.placed_next hleaf.kind).append ih
  | @child s s' e e' h _ hin ih =>
    have hkind : e'.toNode.kind ∈ s.childKinds := List.mem_append_right _ hin
    exact (h.placed_next hkind).append ih
  | @redirected e e' h hinner _ ih =>
    have hsub : ∀ kind ∈ State.subsection.kinds, kind ∈ State.section.childKinds := by decide
    have hkind : e'.toNode.kind ∈ State.section.childKinds := hsub _ hinner.kind
    exact (h.placed_next hkind).append ih

/-- **Headings nest.** In the tree of an outline parse only the root is a body, and all headings and
headers are placed. -/
theorem headings_nest {t : Node} (h : (CatalogEntry.outline.parse chunks).result = some (.ok t))
    {p : List Nat} {parent : Node} (hparent : t.get? p = some parent) :
    (parent.kind = "body" ↔ p = []) ∧
      ∀ i child, parent.children[i]? = some child → Placed chunks parent i child := by
  obtain ⟨s, e, rfl, hbody, hfilled⟩ := exists_filled_of_result h
  have hplaced : ∀ {p parent}, e.toNode.get? p = some parent → ∀ i child,
      parent.children[i]? = some child → Placed chunks parent i child := by
    intro p parent hparent
    rcases hfilled.get? hparent with ⟨s', e', rfl, hfilled'⟩ | htexts
    · exact hfilled'.placed
    · exact fun _ _ ↦ htexts.placed
  refine ⟨⟨fun hkind ↦ ?_, ?_⟩, hplaced hparent⟩
  · rcases List.eq_nil_or_concat p with rfl | ⟨q, i, rfl⟩
    · rfl
    · rw [List.concat_eq_append] at hparent
      obtain ⟨outer, houter, hchild⟩ := Node.exists_get?_of_concat hparent
      exact absurd hkind (hplaced houter i _ hchild).ne_body
  · rintro rfl
    rw [Node.get?_nil, Option.some.injEq] at hparent
    rw [← hparent]
    exact hbody

/-- A heading in a section that was put into body state. -/
theorem headings_nest_redirect :
    ∃ t, t = .element "body" .empty
        [.element "section" ((NameTable.empty.insert "ordinal" "1").insert "title" "One")
          [.element "subsection" ((NameTable.empty.insert "ordinal" "1.1").insert "title" "Sub") [],
            .element "paragraph" (NameTable.empty.insert "id" "state-a") [.text "State A: go"],
            .element "paragraph" (NameTable.empty.insert "id" "state-b") [.text "State B: go"],
            .element "paragraph" (NameTable.empty.insert "id" "state-c") [.text "State C: go"],
            .element "section" ((NameTable.empty.insert "ordinal" "2").insert "title" "Two") []]] ∧
      (CatalogEntry.outline.parse
        ["1 One", "1.1 Sub", "State A: go", "State B: go", "State C: go", "2 Two"]).result =
          some (.ok t) ∧
      ∃ parent, t.get? [0] = some parent ∧ (parent.kind = "body" ↔ [0] = []) ∧
        ∀ i child, parent.children[i]? = some child → Placed
          ["1 One", "1.1 Sub", "State A: go", "State B: go", "State C: go", "2 Two"] parent i child :=
  ⟨_, rfl, rfl, _, rfl, headings_nest rfl rfl⟩

/-- A section need not be a child of the body. -/
theorem not_forall_section_at_top : ¬∀ chunks t,
    (CatalogEntry.outline.parse chunks).result = some (.ok t) →
      ∀ p i child, t.get? (p ++ [i]) = some child → child.kind = "section" → p = [] := by
  intro h
  have hnested := h ["1 One", "1.1 Sub", "State A: go", "State B: go", "State C: go", "2 Two"] _ rfl
    [0] 4 _ rfl rfl
  cases hnested

end FragmentParser.Outline
