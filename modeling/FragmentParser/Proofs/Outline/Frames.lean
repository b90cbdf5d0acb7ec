import FragmentParser.Proofs.Outline.Nested
import FragmentParser.Proofs.Outline.Transitions
import FragmentParser.Proofs.Pile

/-!
# Frames and their elements

An outline parse keeps a state and an open element for each frame, and the element tells how its
frame has got into its state. `Filled s e` is the history of one frame: it began with a chunk
(`Opens`), took leaves (`Leaf`) and the elements of other frames as its children, and went from
state to state with them. A frame on top of another builds an element of a kind that the state below
has for it (`Standing`).

The machine on piles of elements moves in five ways (`Move`), all of which leave the frames standing
(`Move.stands`), and it ends with the root alone or because a chunk is not recognized (`next`). So
the tree of a parse that succeeds is a filled body (`exists_filled_of_result`), and so are its
elements by their frames (`Filled.get?`).
-/

namespace FragmentParser.Outline

/-- Configurations of outline parses with their open elements on a pile. -/
abbrev Config : Type := Design.Config String State (Pile Element)

/-- The kinds of elements that frames in a state build. -/
def State.kinds : State → List String
  | .body | .stateA | .stateB | .stateC => ["body", "section"]
  | .section => ["section"]
  | .subsection => ["subsection"]
  | .subsubsection => ["subsubsection"]
  | .olDecimal | .olAlpha | .olRoman => ["ordered-list"]
  | .listItem => ["list-item"]

/-- The kinds of elements that frames on top of one in a state build. -/
def State.innerKinds : State → List String
  | .body => ["section", "ordered-list"]
  | .section => ["subsection", "ordered-list"]
  | .subsection => ["subsubsection", "ordered-list"]
  | .subsubsection | .listItem => ["ordered-list"]
  | .stateA | .stateB => []
  | .stateC => ["section"]
  | .olDecimal | .olAlpha | .olRoman => ["ordered-list", "list-item"]

/-- In the first state the chunk makes a leaf, and leaves the frame in the second one. -/
inductive Leaf (x : String) : State → State → Node → Prop where
  | paragraph {s : State} : s ∈ sectionStates ∨ s = .stateC →
      Leaf x s s (flowElement (Element.ofKind "paragraph") x)
  | preformatted {s : State} : s ∈ sectionStates →
      Leaf x s s ((Element.ofKind "preformatted").withText x).toNode
  | header : Leaf x .body .body (flowElement (Element.ofKind "header") x)
  | stateA : Leaf x .body .stateA
      (flowElement ((Element.ofKind "paragraph").withAttribute "id" "state-a") x)
  | stateB : Leaf x .stateA .stateB
      (flowElement ((Element.ofKind "paragraph").withAttribute "id" "state-b") x)
  | stateC : Leaf x .stateB .stateC
      (flowElement ((Element.ofKind "paragraph").withAttribute "id" "state-c") x)

/-- In the first state the chunk opens a frame in the second one, for this element. -/
inductive Opens (x : String) : State → State → Element → Prop where
  | section {s : State} : s = .body ∨ s = .stateC → sectionDepth? x.toList = some 1 →
      Opens x s .section (headingElement "section" x)
  | subsection : sectionDepth? x.toList = some 2 →
      Opens x .section .subsection (headingElement "subsection" x)
  | subsubsection : sectionDepth? x.toList = some 3 →
      Opens x .subsection .subsubsection (headingElement "subsubsection" x)
  | item {k : ListClass} : itemClass? x = some k →
      Opens x (listOf k).1 .listItem (itemElement x)

/-- A frame in the state can have built the element, in a parse of these chunks. -/
inductive Filled (chunks : List String) : State → Element → Prop where
  /-- The root begins empty. -/
  | body : Filled chunks .body (Element.ofKind "body")
  /-- A section or an item begins with its chunk. -/
  | opened {s s' : State} {x : String} {e : Element} : Opens x s s' e → Filled chunks s' e
  /-- A list begins empty; the chunk is that of its first item. -/
  | list {k : ListClass} {x : String} {e : Element} : itemClass? x = some k →
      listElement (some x) = .ok e → Filled chunks (listOf k).1 e
  /-- A chunk makes a leaf, and may put the frame into another state. -/
  | leaf {s s' : State} {x : String} {n : Node} {e : Element} : Filled chunks s e →
      Leaf x s s' n → Filled chunks s' (e.append n)
  /-- A frame on top is closed. -/
  | child {s s' : State} {e e' : Element} : Filled chunks s e → Filled chunks s' e' →
      e'.kind ∈ s.innerKinds → Filled chunks s (e.append e'.toNode)
  /-- A subsection is closed by a chunk that puts the section into body state. -/
  | redirected {e e' : Element} : Filled chunks .section e → Filled chunks .subsection e' →
      (∃ x ∈ chunks, beginsWith "State A:" x = true) → Filled chunks .body (e.append e'.toNode)

/-- Frames stand on top of each other, and their elements. -/
inductive Standing (chunks : List String) : List State → List Element → Prop where
  | root {s : State} {e : Element} : Filled chunks s e → e.kind = "body" → Standing chunks [s] [e]
  | inner {s s' : State} {ss : List State} {e e' : Element} {es : List Element} :
      Standing chunks (s' :: ss) (e' :: es) → Filled chunks s e → e.kind ∈ s'.innerKinds →
      Standing chunks (s :: s' :: ss) (e :: e' :: es)

/-- What is known of a configuration in a parse of these chunks. -/
structure Stands (chunks : List String) (c : Config) : Prop where
  /-- The frames stand on top of each other. -/
  frames : Standing chunks (c.stack.top :: c.stack.below) (c.work.top :: c.work.below)
  /-- The chunks to come are some of the chunks. -/
  rest : ∀ x ∈ c.rest, x ∈ chunks

/-- What the machine does in one step. -/
inductive Move : Config → Config → Prop where
  /-- It closes a frame. -/
  | close {s s' : State} {ss : List State} {e e' : Element} {es : List Element} {xs : List String} :
      Move ⟨⟨s, s' :: ss⟩, ⟨e, e' :: es⟩, xs⟩ ⟨⟨s', ss⟩, ⟨e'.append e.toNode, es⟩, xs⟩
  /-- It closes a subsection and puts the section into body state. -/
  | redirect {s' : State} {ss : List State} {e e' : Element} {es : List Element} {x : String}
      {xs : List String} : beginsWith "State A:" x = true →
      Move ⟨⟨.subsection, s' :: ss⟩, ⟨e, e' :: es⟩, x :: xs⟩
        ⟨⟨.body, ss⟩, ⟨e'.append e.toNode, es⟩, x :: xs⟩
  /-- It makes a leaf. -/
  | leaf {s s' : State} {ss : List State} {e : Element} {es : List Element} {x : String}
      {xs : List String} {n : Node} : Leaf x s s' n →
      Move ⟨⟨s, ss⟩, ⟨e, es⟩, x :: xs⟩ ⟨⟨s', ss⟩, ⟨e.append n, es⟩, xs⟩
  /-- It opens a frame of a section or an item. -/
  | opened {s s' : State} {ss : List State} {e e' : Element} {es : List Element} {x : String}
      {xs : List String} : Opens x s s' e' →
      Move ⟨⟨s, ss⟩, ⟨e, es⟩, x :: xs⟩ ⟨⟨s', s :: ss⟩, ⟨e', e :: es⟩, xs⟩
  /-- It opens a frame of a list, and that of the first item. -/
  | list {s : State} {ss : List State} {e e' : Element} {es : List Element} {x : String}
      {xs : List String} {k : ListClass} :
      s ∈ sectionStates ∨ s ∈ listStates → itemClass? x = some k → listElement (some x) = .ok e' →
      Move ⟨⟨s, ss⟩, ⟨e, es⟩, x :: xs⟩
        ⟨⟨.listItem, (listOf k).1 :: s :: ss⟩, ⟨itemElement x, e' :: e :: es⟩, xs⟩

/-- What a step of the machine comes to. -/
inductive Next : Config → Design.Next String State (Pile Element) Node → Prop where
  /-- The machine moves on. -/
  | move {c c' : Config} : Move c c' → Next c (.inl c')
  /-- The root alone is open and all chunks are taken. -/
  | done {s : State} {e : Element} : s ∈ rootStates → Next ⟨⟨s, []⟩, ⟨e, []⟩, []⟩ (.inr (.ok e.toNode))
  /-- The head chunk is not recognized. -/
  | unmatched {σ : StateStack State} {w : Pile Element} {x : String} {xs : List String}
      {state : String} {tried : List String} :
      Next ⟨σ, w, x :: xs⟩ (.inr (.error (.noRecognizerMatch (fragmentText x) state tried)))

variable {chunks : List String} {s s' : State} {ss : List State} {e e' : Element}
  {es : List Element} {n : Node} {c c' : Config} {x : String} {xs : List String}

/-! ### Kinds -/

theorem kind_listElement {y : Option String} (h : listElement y = .ok e) :
    e.kind = "ordered-list" ∧ e.children = [] := by
  rw [listElement] at h
  split at h
  · cases h
  · cases h
    exact ⟨rfl, rfl⟩

theorem kind_headingElement (kind x : String) : (headingElement kind x).kind = kind := rfl

theorem kind_itemElement (x : String) : (itemElement x).kind = "list-item" := by
  obtain ⟨attributes, value, h⟩ := exists_itemElement x
  rw [h]

/-- A section or an item is of a kind for its frame, and for the one below. -/
theorem Opens.kind (h : Opens x s s' e) : e.kind ∈ s'.kinds ∧ e.kind ∈ s.innerKinds := by
  cases h with
  | «section» hs =>
    rw [kind_headingElement]
    rcases hs with rfl | rfl <;> decide
  | subsection | subsubsection =>
    rw [kind_headingElement]
    decide
  | @item k =>
    rw [kind_itemElement]
    cases k <;> decide

/-- Its kind is one of those that are made of a chunk. -/
theorem Opens.kind_mem_chunkKinds (h : Opens x s s' e) : e.kind ∈ chunkKinds := by
  cases h with
  | «section» | subsection | subsubsection =>
    rw [kind_headingElement]
    decide
  | item =>
    rw [kind_itemElement]
    decide

/-- A leaf leaves its frame in a state for the same kinds. -/
theorem Leaf.kinds_eq (h : Leaf x s s' n) : s'.kinds = s.kinds := by
  cases h <;> rfl

/-- The kinds of leaves. -/
def leafKinds : List String := ["header", "paragraph", "preformatted"]

/-- The ids of the paragraphs of the state chain. -/
def stateIds : List String := ["state-a", "state-b", "state-c"]

/-- A leaf holds a text. -/
theorem Leaf.exists_text (h : Leaf x s s' n) :
    ∃ kind ∈ leafKinds, ∃ attributes value, n = .element kind attributes [.text value] := by
  cases h with
  | paragraph | stateA | stateB | stateC => exact ⟨"paragraph", by decide, _, _, rfl⟩
  | preformatted => exact ⟨"preformatted", by decide, _, _, rfl⟩
  | header => exact ⟨"header", by decide, _, _, rfl⟩

theorem Filled.kind (h : Filled chunks s e) : e.kind ∈ s.kinds := by
  induction h with
  | body => decide
  | opened hopens => exact hopens.kind.1
  | @list k x e _ he =>
    rw [(kind_listElement he).1]
    cases k <;> decide
  | leaf _ hleaf ih =>
    rw [hleaf.kinds_eq]
    exact ih
  | child _ _ _ ih => exact ih
  | redirected _ _ _ ih =>
    have hsub : ∀ kind ∈ State.section.kinds, kind ∈ State.body.kinds := by decide
    exact hsub _ ih

/-- The root is in one of its states. -/
theorem Filled.mem_rootStates (h : Filled chunks s e) (hkind : e.kind = "body") : s ∈ rootStates := by
  have hs := h.kind
  rw [hkind] at hs
  revert hs
  cases s <;> decide

/-- A subsection stands on a section. -/
theorem eq_section_of_innerKinds (h : Filled chunks .subsection e) (hin : e.kind ∈ s.innerKinds) :
    s = .section := by
  have hkind : e.kind = "subsection" := List.mem_singleton.1 h.kind
  rw [hkind] at hin
  revert hin
  cases s <;> decide

/-! ### Steps of the machine -/

/-- A leaf is added to the innermost element. -/
theorem step_of_leaf {m : Maker} {s' : Option State} {y : Symbol} {make : String → Option Node}
    (ht : grammar.transition? ⟨s, ss⟩ x = some (y, .construct m s')) (hshape : shape m = .leaf make)
    (hn : make x = some n) (hframe : Constructor.frame m = .shared) :
    design.step design.pile grammar ⟨⟨s, ss⟩, ⟨e, es⟩, x :: xs⟩ =
      .inl ⟨⟨s'.getD s, ss⟩, ⟨e.append n, es⟩, xs⟩ := by
  have hshape' : design.shape m = .leaf make := hshape
  simp only [Design.step, ht, Design.enter, hshape', hn, hframe]
  cases s' <;> rfl

/-- The element of a container is put on top. -/
theorem step_of_container {m : Maker} {y : Symbol} {start : String → Element}
    (ht : grammar.transition? ⟨s, ss⟩ x = some (y, .childIn m s'))
    (hshape : shape m = .container start) (hframe : Constructor.frame m = .own) :
    design.step design.pile grammar ⟨⟨s, ss⟩, ⟨e, es⟩, x :: xs⟩ =
      .inl ⟨⟨s', s :: ss⟩, ⟨start x, e :: es⟩, xs⟩ := by
  have hshape' : design.shape m = .container start := hshape
  simp only [Design.step, ht, Transition.childIn, Design.enter, hshape', hframe]
  rfl

/-- A list is put on top, and its first item on top of it. -/
theorem step_of_list {k : ListClass} {y : Symbol}
    (ht : grammar.transition? ⟨s, ss⟩ x = some (y, .childIn (listOf k).2 (listOf k).1))
    (he : listElement (some x) = .ok e') :
    design.step design.pile grammar ⟨⟨s, ss⟩, ⟨e, es⟩, x :: xs⟩ =
      .inl ⟨⟨.listItem, (listOf k).1 :: s :: ss⟩, ⟨itemElement x, e' :: e :: es⟩, xs⟩ := by
  have hshape : design.shape (listOf k).2 =
      .series listElement .listItem itemElement (some .listItem) := by
    cases k <;> rfl
  have hframe : Constructor.frame (listOf k).2 = .own := by
    cases k <;> rfl
  simp only [Design.step, ht, Transition.childIn, Design.enter, hshape, he, hframe]
  rfl

theorem exists_listElement {k : ListClass} (hx : itemClass? x = some k) :
    ∃ e, listElement (some x) = .ok e := by
  obtain ⟨style, hstyle, -⟩ := Option.map_eq_some_iff.1 hx
  exact ⟨_, by rw [listElement, Option.bind_some, hstyle]⟩

/-- What a constructor makes of a chunk that it may take. -/
theorem next_enter {m : Maker} {s' : Option State} {y : Symbol}
    (ht : grammar.transition? ⟨s, ss⟩ x = some (y, .construct m s')) :
    Next ⟨⟨s, ss⟩, ⟨e, es⟩, x :: xs⟩ (design.step design.pile grammar ⟨⟨s, ss⟩, ⟨e, es⟩, x :: xs⟩) := by
  have htakes : Takes x s m s' := may_of_transition? ht
  have hleaf : ∀ {make n}, shape m = .leaf make → make x = some n → Constructor.frame m = .shared →
      Leaf x s (s'.getD s) n → Next ⟨⟨s, ss⟩, ⟨e, es⟩, x :: xs⟩
        (design.step design.pile grammar ⟨⟨s, ss⟩, ⟨e, es⟩, x :: xs⟩) := by
    intro make n hshape hn hframe hleaf
    rw [step_of_leaf ht hshape hn hframe]
    exact .move (.leaf hleaf)
  have hcontainer : ∀ {start s''}, shape m = .container start → s' = some s'' →
      Constructor.frame m = .own → Opens x s s'' (start x) → Next ⟨⟨s, ss⟩, ⟨e, es⟩, x :: xs⟩
        (design.step design.pile grammar ⟨⟨s, ss⟩, ⟨e, es⟩, x :: xs⟩) := by
    rintro start s'' hshape rfl hframe hopens
    rw [step_of_container ht hshape hframe]
    exact .move (.opened hopens)
  cases htakes with
  | paragraph hs => exact hleaf rfl rfl rfl (.paragraph hs)
  | preformatted hs => exact hleaf rfl rfl rfl (.preformatted hs)
  | header => exact hleaf rfl rfl rfl .header
  | stateA => exact hleaf rfl rfl rfl .stateA
  | stateB => exact hleaf rfl rfl rfl .stateB
  | stateC => exact hleaf rfl rfl rfl .stateC
  | «section» hs hdepth => exact hcontainer rfl rfl rfl (.section hs hdepth)
  | subsection hdepth => exact hcontainer rfl rfl rfl (.subsection hdepth)
  | subsubsection hdepth => exact hcontainer rfl rfl rfl (.subsubsection hdepth)
  | item hx => exact hcontainer rfl rfl rfl (.item hx)
  | list hs hx =>
    obtain ⟨e', he⟩ := exists_listElement hx
    rw [step_of_list ht he]
    exact .move (.list hs hx he)

/-- While frames stand on top of each other, every step is one of these. -/
theorem next (h : Stands chunks c) : Next c (design.step design.pile grammar c) := by
  obtain ⟨⟨s, ss⟩, ⟨e, es⟩, xs⟩ := c
  have hframes := h.frames
  rcases xs with _ | ⟨x, xs⟩
  · -- frames are closed at the end
    cases hframes with
    | root hfilled hkind => exact .done (hfilled.mem_rootStates hkind)
    | inner => exact .move .close
  · rcases ht : grammar.transition? ⟨s, ss⟩ x with _ | ⟨y, ⟨m, s'⟩ | _ | s'⟩
    · simp only [Design.step, ht]
      exact .unmatched
    · exact next_enter ht
    · have hstop : s ∉ rootStates := may_of_transition? ht
      cases hframes with
      | root hfilled hkind => exact absurd (hfilled.mem_rootStates hkind) hstop
      | inner =>
        simp only [Design.step, ht]
        exact .move .close
    · obtain ⟨hs, rfl, hx⟩ : s = .subsection ∧ s' = .body ∧ beginsWith "State A:" x = true :=
        may_of_transition? ht
      subst hs
      cases hframes with
      | root hfilled hkind =>
        have hroot : State.subsection ∈ rootStates := hfilled.mem_rootStates hkind
        exact absurd hroot (by decide)
      | inner =>
        simp only [Design.step, ht]
        exact .move (.redirect hx)

/-! ### Moves leave the frames standing -/

theorem Standing.filled (h : Standing chunks (s :: ss) (e :: es)) : Filled chunks s e := by
  cases h with
  | root hfilled => exact hfilled
  | inner _ hfilled => exact hfilled

/-- There are as many states as elements. -/
theorem Standing.length_eq {ss : List State} (h : Standing chunks ss es) : ss.length = es.length := by
  induction h with
  | root => rfl
  | inner _ _ _ ih => exact congrArg Nat.succ ih

/-- A frame that is filled further stands as before. -/
theorem Standing.replace (h : Standing chunks (s :: ss) (e :: es)) (hfilled : Filled chunks s' e')
    (hkind : e'.kind = e.kind) : Standing chunks (s' :: ss) (e' :: es) := by
  cases h with
  | root _ hbody => exact .root hfilled (hkind.trans hbody)
  | inner hbelow _ hin => exact .inner hbelow hfilled (hkind ▸ hin)

/-- Every move leaves the frames standing. -/
theorem Move.stands (hmove : Move c c') (h : Stands chunks c) : Stands chunks c' := by
  have hframes := h.frames
  have htail : ∀ {x xs}, c.rest = x :: xs → ∀ y ∈ xs, y ∈ chunks := by
    intro x xs hrest y hy
    exact h.rest y (hrest ▸ List.mem_cons_of_mem _ hy)
  cases hmove with
  | close =>
    cases hframes with
    | inner hbelow hfilled hin =>
      exact ⟨hbelow.replace (.child hbelow.filled hfilled hin) rfl, h.rest⟩
  | redirect hx =>
    cases hframes with
    | inner hbelow hfilled hin =>
      obtain rfl := eq_section_of_innerKinds hfilled hin
      have hchunk : ∃ x ∈ chunks, beginsWith "State A:" x = true :=
        ⟨_, h.rest _ List.mem_cons_self, hx⟩
      exact ⟨hbelow.replace (.redirected hbelow.filled hfilled hchunk) rfl, h.rest⟩
  | leaf hleaf => exact ⟨hframes.replace (.leaf hframes.filled hleaf) rfl, htail rfl⟩
  | opened hopens => exact ⟨.inner hframes (.opened hopens) hopens.kind.2, htail rfl⟩
  | @list s ss e e' es x xs k hs hx he =>
    have hlist : Standing chunks ((listOf k).1 :: s :: ss) (e' :: e :: es) := by
      refine .inner hframes (.list hx he) ?_
      rw [(kind_listElement he).1]
      revert hs
      cases s <;> decide
    have hitem : Opens x (listOf k).1 .listItem (itemElement x) := .item hx
    exact ⟨.inner hlist (.opened hitem) hitem.kind.2, htail rfl⟩

/-! ### Runs of the machine -/

/-- The machine before the first chunk. -/
def beginning (chunks : List String) : Config := ⟨.root .body, ⟨Element.ofKind "body", []⟩, chunks⟩

/-- The machine moves from one configuration to the other. -/
abbrev Moves : Config → Config → Prop := Relation.ReflTransGen Move

theorem stands_beginning (chunks : List String) : Stands chunks (beginning chunks) where
  frames := .root .body rfl
  rest _ hx := hx

theorem Moves.stands (hmoves : Moves (beginning chunks) c) : Stands chunks c := by
  induction hmoves with
  | refl => exact stands_beginning chunks
  | tail _ hmove ih => exact hmove.stands ih

/-- The machine moves where it gets. -/
theorem moves_of_leads (hstands : Stands chunks c)
    (hleads : design.Leads design.pile grammar c c') : Moves c c' ∧ Stands chunks c' := by
  induction hleads with
  | refl => exact ⟨.refl, hstands⟩
  | tail _ hstep ih =>
    have hnext := next ih.2
    rw [hstep] at hnext
    cases hnext with
    | move hmove => exact ⟨ih.1.tail hmove, hmove.stands ih.2⟩

/-- A parse comes to what the machine comes to from wherever it gets. -/
theorem exists_end (hleads : design.Leads design.pile grammar (beginning chunks) c) :
    ∃ c' outcome, design.Leads design.pile grammar c c' ∧ Moves c c' ∧ Stands chunks c' ∧
      Next c' (.inr outcome) ∧ (CatalogEntry.outline.parse chunks).result = some outcome := by
  obtain ⟨c', hleads', hend⟩ := design.exists_leads design.pile grammar c
  obtain ⟨hmoves, hstands⟩ :=
    moves_of_leads (moves_of_leads (stands_beginning chunks) hleads).2 hleads'
  have hnext := next hstands
  rw [hend] at hnext
  refine ⟨c', _, hleads', hmoves, hstands, hnext, ?_⟩
  rw [← hleads.run_eq]
  exact result_eq_run design.pile_keeps chunks

theorem exists_moves (chunks : List String) : ∃ c outcome, Moves (beginning chunks) c ∧
    Next c (.inr outcome) ∧ (CatalogEntry.outline.parse chunks).result = some outcome := by
  obtain ⟨c, outcome, -, hmoves, -, hnext, hresult⟩ := exists_end (.refl : design.Leads _ _
    (beginning chunks) (beginning chunks))
  exact ⟨c, outcome, hmoves, hnext, hresult⟩

/-- If it succeeds then the element of the root is the tree in the end. -/
theorem exists_leads_of_result {t : Node}
    (h : (CatalogEntry.outline.parse chunks).result = some (.ok t))
    (hleads : design.Leads design.pile grammar (beginning chunks) c) :
    ∃ s e, t = e.toNode ∧ design.Leads design.pile grammar c ⟨⟨s, []⟩, ⟨e, []⟩, []⟩ := by
  obtain ⟨c', outcome, hleads', -, -, hnext, hresult⟩ := exists_end hleads
  rw [h, Option.some.injEq] at hresult
  subst hresult
  cases hnext with
  | done => exact ⟨_, _, rfl, hleads'⟩

theorem exists_moves_of_result {t : Node}
    (h : (CatalogEntry.outline.parse chunks).result = some (.ok t)) :
    ∃ s e, t = e.toNode ∧ Moves (beginning chunks) ⟨⟨s, []⟩, ⟨e, []⟩, []⟩ := by
  obtain ⟨s, e, ht, hleads⟩ := exists_leads_of_result h .refl
  exact ⟨s, e, ht, (moves_of_leads (stands_beginning chunks) hleads).1⟩

theorem exists_filled_of_result {t : Node}
    (h : (CatalogEntry.outline.parse chunks).result = some (.ok t)) :
    ∃ s e, t = e.toNode ∧ e.kind = "body" ∧ Filled chunks s e := by
  obtain ⟨s, e, rfl, hmoves⟩ := exists_moves_of_result h
  cases hmoves.stands.frames with
  | root hfilled hkind => exact ⟨s, e, rfl, hkind, hfilled⟩

/-! ### The nodes of a filled element -/

/-- A position in an element with a child more. -/
theorem get?_append_cases {e : Element} {n m : Node} {i : Nat} {q : List Nat}
    (h : (e.append n).toNode.get? (i :: q) = some m) :
    e.toNode.get? (i :: q) = some m ∨ n.get? q = some m := by
  rw [Node.get?_cons] at h ⊢
  change ((e.children ++ [n])[i]?.bind fun c ↦ c.get? q) = some m at h
  obtain ⟨child, hchild, hm⟩ := Option.bind_eq_some_iff.1 h
  rcases getElem?_concat_cases hchild with hold | ⟨-, rfl⟩
  · left
    rw [show e.toNode.children[i]? = some child from hold]
    exact hm
  · exact .inr hm

/-- The node has no children besides text. -/
def OfTexts (n : Node) : Prop := ∀ c ∈ n.children, ∃ value, c = .text value

theorem ofTexts_of_children_eq_nil {n : Node} (h : n.children = []) : OfTexts n := by
  intro c hc
  rw [h] at hc
  cases hc

/-- In a node of texts there is nothing that has other children. -/
theorem OfTexts.get? {n m : Node} {q : List Nat} (hn : OfTexts n) (h : n.get? q = some m) :
    OfTexts m := by
  cases n with
  | text value =>
    rcases q with _ | ⟨i, q⟩
    · cases h
      exact hn
    · cases h
  | element kind attributes children =>
    rcases get?_of_texts hn h with ⟨-, rfl⟩ | ⟨value, rfl⟩
    · exact hn
    · exact ofTexts_of_children_eq_nil rfl

theorem ofTexts_singleton (kind : String) (attributes : Attributes) (value : String) :
    OfTexts (.element kind attributes [.text value]) :=
  fun _ hc ↦ ⟨value, List.mem_singleton.1 hc⟩

/-- A section or an item begins with a text at most. -/
theorem Opens.ofTexts (h : Opens x s s' e) : OfTexts e.toNode := by
  cases h with
  | «section» | subsection | subsubsection => exact ofTexts_of_children_eq_nil rfl
  | item =>
    obtain ⟨attributes, value, hitem⟩ := exists_itemElement x
    rw [hitem]
    exact ofTexts_singleton _ _ _

/-- A node in an element that a frame has filled is such an element itself, or it holds nothing but
text. -/
theorem Filled.get? (h : Filled chunks s e) {p : List Nat} {n : Node}
    (hn : e.toNode.get? p = some n) : (∃ s' e', n = e'.toNode ∧ Filled chunks s' e') ∨ OfTexts n := by
  induction h generalizing p with
  | body => exact .inr ((ofTexts_of_children_eq_nil rfl).get? hn)
  | opened hopens => exact .inr (hopens.ofTexts.get? hn)
  | @list k x e hx he =>
    have hnil : e.toNode.children = [] := (kind_listElement he).2
    exact .inr ((ofTexts_of_children_eq_nil hnil).get? hn)
  | leaf hfilled hleaf ih =>
    rcases p with _ | ⟨i, q⟩
    · cases hn
      exact .inl ⟨_, _, rfl, .leaf hfilled hleaf⟩
    · rcases get?_append_cases hn with hold | hnew
      · exact ih hold
      · obtain ⟨kind, -, attributes, value, rfl⟩ := hleaf.exists_text
        exact .inr ((ofTexts_singleton _ _ _).get? hnew)
  | child hfilled hinner hin ih ih' =>
    rcases p with _ | ⟨i, q⟩
    · cases hn
      exact .inl ⟨_, _, rfl, .child hfilled hinner hin⟩
    · exact (get?_append_cases hn).elim ih ih'
  | redirected hfilled hinner hchunk ih ih' =>
    rcases p with _ | ⟨i, q⟩
    · cases hn
      exact .inl ⟨_, _, rfl, .redirected hfilled hinner hchunk⟩
    · exact (get?_append_cases hn).elim ih ih'

end FragmentParser.Outline
